import Bindgen.Native.Arguments
import Bindgen.Native.Objects
import Bindgen.Native.Protocol

/-!
# Running wrappers

The wrappers of a model are run from the plans by which they are printed (`Emit.CallPlan`). A wrapper has a
`Scope`: what its parameters and locals stand for. Without consumed buffers the arguments are lowered where
they are passed. With some, the others are bound to locals first, one after another, and then the buffers
are copied; a local that has the name of a parameter takes its place.

Wrappers use names of their module: the library, the protocol, the support code and the converters. One that
a parameter, a local, a definition or a function has taken is no longer what the wrapper needs
(`Wrappers.need`).
-/

namespace Bindgen.Native

open Interface Resolve Emit Identifier Wire

/-- What a name stands for while a wrapper runs. -/
inductive Bound where
  | argument (v : Value)
  | lowered (p : Passed)

/-- What the names in a wrapper stand for, the latest first. A name has the form that it has inside the class
of the wrapper. -/
abbrev Scope := List (String × Bound)

/-- The wrappers of a model. -/
structure Wrappers where
  model : Model
  schema : Schema
  /-- How many definitions may stand inside each other in a value. -/
  limit : Nat
  /-- Calls what has taken the name of a builtin. -/
  callTaken : Builtin → List Value → Action Value

/-- A wrapper that runs: the object it belongs to, the label of the receiver, and its local names. -/
structure Frame where
  owner : Option Object
  self : Option String
  locals : List String

/-- What a name that stands in a wrapper is called there. -/
def Frame.inside (f : Frame) (name : String) : String := nameInside f.owner name

namespace Wrappers

/-- The converter of a type. -/
def converter (b : Wrappers) (t : Ty) : Converter := ⟨b.schema, b.limit, t⟩

/-! ## Refusals -/

/-- What a refusal comes to in a module: what has taken the name for classes is called with the value, and
what has taken the name of the error is called with the message. -/
def refuse (b : Wrappers) (definition : String) (v : Value) (got : String) : Action Fault := do
  if b.schema.isTaken Builtin.classOf.name then
    let _ ← b.callTaken .classOf [v]
    return .unsupported
  let message := (Fault.expected definition got).message
  match b.schema.lookup Builtin.typeError.name with
  | some (.error _) => return .declared Builtin.typeError.name (.text message) ""
  | _ =>
    if b.schema.isTaken Builtin.typeError.name then
      let _ ← b.callTaken .typeError [.text message]
      return .notRaisable
    else return .expected definition got

/-- A result or fault as an action, in which a refusal or the call of what has taken a name comes to what it
does in this module. -/
def settle (b : Wrappers) (r : Except Fault α) : Action α :=
  match r with
  | .ok a => pure a
  | .error (.refused definition v got) => do throw (← b.refuse definition v got)
  | .error (.diverted meant args) => do
    let _ ← b.callTaken meant args
    throw .unsupported
  | .error (.overridden cls member given) => throw <|
    match b.schema.table.lookup cls with
    | some (.object o) => overrideFault o member given
    | _ => .unsupported
  | .error f => throw f

/-! ## Names -/

/-- The names of the module that every wrapper needs. -/
def libraryName : String := "_lib"
/-- The name of the protocol. -/
def protocolName : String := "_protocol"

/-- Makes sure that a name still stands for what it does in the module. -/
def need (b : Wrappers) (f : Frame) (name : String) : Action Unit :=
  if name ∈ f.locals || b.schema.isTaken name then throw .unsupported else pure ()

/-- Makes sure that the converter of a type is where it is looked for. -/
def needConverter (b : Wrappers) (f : Frame) (t : Ty) : Action Unit :=
  let name := converterSource t
  if name ∈ f.locals || name ∈ b.schema.functions then throw .unsupported else pure ()

/-- Hands over the converter of a type. It is needed at once if it belongs to the support code, or if its name
is a local that stands for nothing yet. Where something else has its name, those who use it notice. -/
def handOver (b : Wrappers) (f : Frame) (scope : Scope) (t : Ty) : Action Unit :=
  let name := converterSource t
  if name = supportName || name ∈ f.locals && (scope.lookup name).isNone then b.needConverter f t
  else pure ()

/-! ## Errors -/

/-- The class of the variant at an index of an error. A field named `code` hides the code. -/
def errorVariant (b : Wrappers) (c : Choice) (index : Nat) : ErrorVariant :=
  let place := Schema.variantClass c index
  let cls : ClassRef := ⟨c.name, some place⟩
  let obstacle := match b.schema.makeFailure cls "" [] with
    | .ok _ => none
    | .error f => some f
  ⟨b.schema.className cls,
    if b.schema.attributes cls |>.contains "code" then none else some (place + firstVariant), obstacle⟩

/-- The class of errors of a name. -/
def errorClass (b : Wrappers) (name : String) : ErrorClass :=
  match b.schema.lookup name with
  | some (.error c) => ⟨name, (List.range c.variants.length).map fun i =>
      ((i + firstVariant : Nat), b.errorVariant c i), none⟩
  | _ => ⟨name, [], some .unsupported⟩

/-- The class of errors that a name stands for in a wrapper; none if it stands for nothing. -/
def errorIn (b : Wrappers) (f : Frame) (scope : Scope) (name : String) : Action (Option ErrorClass) :=
  match scope.lookup (f.inside name) with
  | some (.argument .none) | some (.lowered (.value .none)) => return none
  | some _ => return some ⟨name, [], some .unsupported⟩
  | none =>
    if f.inside name ∈ f.locals || f.inside name != name then throw .unsupported
    else return some (b.errorClass name)

/-! ## Lowering -/

/-- The encoded value of a type. -/
def encode (b : Wrappers) (f : Frame) (t : Ty) (v : Value) : Action (List UInt8) := do
  b.needConverter f t
  b.settle ((b.converter t).encode v)

/-- How a buffer counts among values. -/
def bufferValue : Value := .object ⟨"BufferRecord", []⟩ none none

/-- How the object or class that a wrapper belongs to counts among values. -/
def receiverValue (owner : Option Object) : Value := .object ⟨(owner.map (·.name)).getD "", []⟩ none none

/-- The value that a parameter stands for. -/
def paramValue (f : Frame) (scope : Scope) (p : Param) : Action Value :=
  match scope.lookup (f.inside (escapePython p.name)) with
  | some (.argument v) | some (.lowered (.value v)) => return v
  | some (.lowered (.buffer _)) => return bufferValue
  | none => throw .unsupported

/-- Lowers the argument for a parameter. -/
def lowerParam (b : Wrappers) (f : Frame) (scope : Scope) (p : Param) : Action Passed := do
  if (b.schema.table.conversionOf p.type).usesBuffer then
    b.need f supportName
    .buffer <$> lowerBorrowed (b.encode f p.type (← paramValue f scope p))
  else
    b.needConverter f p.type
    .value <$> b.settle ((b.converter p.type).lower (← paramValue f scope p))

/-- The handle of a receiver. -/
def receiverHandle (b : Wrappers) (label : String) : Action Value := do
  b.settle (b.schema.askMember (← Action.object label).cls.name handleMember 0)
  Action.requireHandle label

/-- Lowers what belongs in a slot. -/
def lowerSlot (b : Wrappers) (f : Frame) (scope : Scope) (s : Slot) : Action Passed :=
  match s.origin, f.self with
  | .receiver, some label => .value <$> b.receiverHandle label
  | .receiver, none => throw .unsupported
  | .param p, _ => b.lowerParam f scope p

/-- Lowers slots into their locals, one after another. -/
def bindSlots (b : Wrappers) (f : Frame) : Scope → List Slot → Action Scope
  | scope, [] => return scope
  | scope, s :: rest => do
    let p ← b.lowerSlot f scope s
    bindSlots b f ((f.inside s.target, .lowered p) :: scope) rest

/-- What is to be encoded for a consumed buffer. -/
def ownedEncoding (b : Wrappers) (f : Frame) (scope : Scope) (s : Slot) :
    Action (Action (List UInt8)) :=
  match s.origin with
  | .param p => do
    b.handOver f scope p.type
    return b.encode f p.type (← paramValue f scope p)
  | .receiver => throw .unsupported

/-- Binds the locals of a plan: everything else first, then the copies of the consumed buffers. -/
def bindAll (b : Wrappers) (f : Frame) (scope : Scope) (plan : CallPlan) : Action Scope := do
  let scope ← b.bindSlots f scope plan.plain
  b.need f protocolName
  let encodings ← plan.owned.mapM (b.ownedEncoding f scope)
  let copies ← lowerOwnedAll encodings
  let owned := (plan.owned.zip copies).map fun (s, copy) => (f.inside s.target, Bound.lowered (.buffer copy))
  return owned.reverse ++ scope

/-- What a local stands for where it is passed. -/
def passedLocal (f : Frame) (scope : Scope) (s : Slot) : Action Passed :=
  match scope.lookup (f.inside s.target) with
  | some (.lowered p) => return p
  | some (.argument v) => return .value v
  | none => throw .unsupported

/-! ## Calling -/

/-- The plan of a callable. -/
def plan (b : Wrappers) (owner : Option Object) (c : Callable) : CallPlan :=
  .ofCallable b.schema.table PythonModule.localName (symbolName b.model.ns c owner) c

/-- What is passed in the slots of a plan: what is lowered there in place, or what the locals stand for. -/
def passing (b : Wrappers) (f : Frame) (scope : Scope) (plan : CallPlan) : Action (List Passed) :=
  if plan.inPlace then plan.slots.mapM fun s => b.lowerSlot f scope (plan.inPlaceSlot s)
  else plan.slots.mapM (passedLocal f scope)

/-- The class of the errors that the call of a plan may report. -/
def reported (b : Wrappers) (f : Frame) (scope : Scope) (plan : CallPlan) : Action (Option ErrorClass) :=
  match plan.error with
  | some name => b.errorIn f scope name
  | none => return none

/-- Calls the symbol of a plan, with the arguments that stand in the scope or are lowered from it. -/
def callPlan (b : Wrappers) (f : Frame) (scope : Scope) (plan : CallPlan) : Action Passed := do
  b.need f protocolName
  b.need f libraryName
  let passed ← b.passing f scope plan
  let error ← b.reported f scope plan
  b.settle (← Action.attempt (call (f.inside plan.symbol) passed error))

/-- What a wrapper needs first for its result. A converter that reads a buffer is handed over, when all locals
stand for something. -/
def needResult (b : Wrappers) (f : Frame) (t : Ty) : Action Unit := do
  if (b.schema.table.conversionOf t).usesBuffer then
    b.need f protocolName
    if converterSource t = supportName then b.needConverter f t
  else b.needConverter f t

/-- What a wrapper returns for a native result. -/
def liftResult (b : Wrappers) (f : Frame) (t : Ty) (result : Passed) : Action Value :=
  match (b.schema.table.conversionOf t), result with
  | .rawBuffer, .buffer buffer | .serialized, .buffer buffer =>
    lift (fun bytes => do
      b.needConverter f t
      b.settle ((b.converter t).decode bytes)) buffer
  | .direct, .value v | .boolByte, .value v | .handle, .value v =>
    b.settle ((b.converter t).lift v)
  | .boolByte, .buffer buffer =>
    throw (.internal (.invalidBoolean (bufferText buffer.capacity buffer.len buffer.memory.isSome)))
  | _, _ => throw .unsupported

/-- What a wrapper makes of the result of its call, and what it needs for that before it calls. -/
structure Finish where
  need : Frame → Action Unit
  make : Frame → Passed → Action Value

/-- What the wrapper of a function or method returns. -/
def callableFinish (b : Wrappers) (c : Callable) : Finish :=
  match c.returns with
  | none => ⟨fun _ => return, fun _ _ => return .none⟩
  | some t => ⟨fun f => b.needResult f t, fun f result => b.liftResult f t result⟩

/-- What the wrapper of a constructor makes: a new object that owns the handle. -/
def constructorFinish (b : Wrappers) (o : Object) (c : Callable) : Finish where
  need f := b.need f supportName
  make _ result := match result with
    | .value v => b.settle (if c.isPrimary then newObject o.name v else madeObject b.schema o.name v)
    | .buffer _ => throw .unsupported

/-- The parameters of a callable, as they are called in its wrapper. -/
def paramNames (owner : Option Object) (c : Callable) : List String :=
  c.params.map fun p => nameInside owner (escapePython p.name)

/-- The frame of a wrapper. The slots of its plan have locals where they are not lowered in place. -/
def frame (owner : Option Object) (c : Callable) (self : Option String) (plan : CallPlan) : Frame :=
  ⟨owner, self,
    paramNames owner c ++ if plan.inPlace then [] else plan.slots.map fun s => nameInside owner s.target⟩

/-- What the names in a wrapper stand for at first. -/
def argumentScope (owner : Option Object) (c : Callable) (args : List Value) : Scope :=
  let receivers := PythonModule.receiverParams c
  ((receivers ++ paramNames owner c).zip (receivers.map (fun _ => receiverValue owner) ++ args)).map
    fun (name, v) => (name, .argument v)

/-- Runs a wrapper with arguments: binds its locals if there are consumed buffers, makes the call, and comes to
an end. -/
def run (b : Wrappers) (owner : Option Object) (c : Callable) (self : Option String) (args : List Value)
    (finish : Finish) : Action Value := do
  Action.ofExcept (checkArguments owner c args.length)
  let plan := b.plan owner c
  let f := frame owner c self plan
  let scope ← if plan.inPlace then pure (argumentScope owner c args)
    else b.bindAll f (argumentScope owner c args) plan
  finish.need f
  finish.make f (← b.callPlan f scope plan)

/-- Runs the wrapper of a function or method. -/
def runCallable (b : Wrappers) (owner : Option Object) (c : Callable) (self : Option String)
    (args : List Value) : Action Value :=
  b.run owner c self args (b.callableFinish c)

/-- Runs the wrapper of a constructor, which gives a new object. -/
def runConstructor (b : Wrappers) (o : Object) (c : Callable) (args : List Value) : Action Value :=
  b.run (some o) c none args (b.constructorFinish o c)

end Wrappers

end Bindgen.Native
