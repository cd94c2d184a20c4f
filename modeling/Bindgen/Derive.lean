import Bindgen.Boundary.Support
import Bindgen.Resolve.Mapping

/-!
# Deriving signatures

Every callable of a model becomes one exported symbol. The arguments are the receiver's handle for a
method, then one argument per parameter in order, then the error record if the callable throws. After the
constructors and methods of an object comes the symbol that releases its handle.

`deriveAll` derives a whole model, the support functions first, and fails on the first symbol that occurs
twice.
-/

namespace Bindgen

open Interface Boundary Resolve

/-- The name of the error record argument. -/
def errorOutName : String := "out_err"

/-- The symbol of a callable. -/
def symbolName (ns : String) (c : Callable) (owner : Option Object) : String :=
  match owner with
  | none => s!"{ns}_fn_{c.name}"
  | some o => s!"{ns}_{o.name}_{c.name}"

/-- The symbol that releases the handles of an object. -/
def releaseName (ns object : String) : String :=
  s!"{ns}_{object}_free"

/-- The arguments of some parameters of the callable at `place`. -/
def deriveParams (place : String) : Checker → List Param → Except Failure (List Argument × Checker)
  | checker, [] => .ok ([], checker)
  | checker, p :: ps => do
    let (shape, checker) ← checker.map p.type (some (p.place place))
    let (rest, checker) ← deriveParams place checker ps
    return (⟨p.name, shape, if p.consumed then .transferred else .borrowed⟩ :: rest, checker)

/-- The result of a callable at `place`. -/
def deriveResult (place : String) (checker : Checker) (c : Callable) :
    Except Failure (Option Shape × Checker) :=
  match c.kind, c.returns with
  | .constructor, _ => .ok (some .handle, checker)
  | _, none => .ok (none, checker)
  | _, some t => do
    let (shape, checker) ← checker.map t (some s!"{place} return")
    return (some shape, checker)

/-- The error record argument of a callable at `place`, if it throws. -/
def deriveErrorOut (place : String) (checker : Checker) (c : Callable) :
    Except Failure (List Argument) :=
  match c.throws with
  | none => .ok []
  | some name => do
    let _ ← checker.table.resolveError name (some place)
    return [⟨errorOutName, .errorRecord, .callerOwned⟩]

/-- The receiver argument, which methods have. -/
def receiverArgument (c : Callable) : List Argument :=
  if c.kind = .method then [⟨receiverName, .handle, .borrowed⟩] else []

/-- The symbol of a callable. -/
def derive (checker : Checker) (owner : Option Object) (c : Callable) :
    Except Failure (Signature × Checker) := do
  let place := c.place owner
  let (params, checker) ← deriveParams place checker c.params
  let (returns, checker) ← deriveResult place checker c
  let errorOut ← deriveErrorOut place checker c
  return (⟨symbolName checker.model.ns c owner, receiverArgument c ++ params ++ errorOut, returns,
    c.throws, some c, owner⟩, checker)

/-- The symbol that releases the handles of an object. -/
def deriveRelease (ns : String) (o : Object) : Signature :=
  ⟨releaseName ns o.name, [⟨receiverName, .handle, .transferred⟩], none, none, none, some o⟩

/-- The symbols of some callables of one owner. -/
def deriveEach (owner : Option Object) :
    Checker → List Callable → Except Failure (List Signature × Checker)
  | checker, [] => .ok ([], checker)
  | checker, c :: cs => do
    let (s, checker) ← derive checker owner c
    let (rest, checker) ← deriveEach owner checker cs
    return (s :: rest, checker)

/-- The symbols of some objects, each with its release symbol last. -/
def deriveObjects : Checker → List Object → Except Failure (List Signature × Checker)
  | checker, [] => .ok ([], checker)
  | checker, o :: os => do
    let (own, checker) ← deriveEach (some o) checker o.callables
    let (rest, checker) ← deriveObjects checker os
    return (own ++ deriveRelease checker.model.ns o :: rest, checker)

/-- All symbols of a model in order, whether or not their names differ. -/
def deriveSymbols (checker : Checker) : Except Failure (List Signature × Checker) := do
  let (functions, checker) ← deriveEach none checker checker.model.functions
  let (objects, checker) ← deriveObjects checker checker.model.objects
  return (supportFunctions checker.model.ns ++ functions ++ objects, checker)

/-- The symbols before the first whose name occurred before, and that name. -/
def distinctSymbols (seen : List String) : List Signature → List Signature × Option String
  | [] => ([], none)
  | s :: ss =>
    if s.name ∈ seen then ([], some s.name)
    else
      let (front, repeated) := distinctSymbols (s.name :: seen) ss
      (s :: front, repeated)

/-- All symbols of a model in order. -/
def deriveAll (checker : Checker) : Except Failure (List Signature × Checker) := do
  let (symbols, checker) ← deriveSymbols checker
  match (distinctSymbols [] symbols).2 with
  | some name => throw (.duplicateSymbol name)
  | none => return (symbols, checker)

end Bindgen
