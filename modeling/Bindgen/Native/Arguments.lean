import Bindgen.Emit.PythonNames
import Bindgen.Wire.Fault

/-!
# Arguments of a wrapper

A wrapper takes one argument for each of its parameters, in order. `checkCount` refuses any other number, and
says which arguments are missing or how many there are.
-/

namespace Bindgen.Native

open Interface Emit Identifier Wire

/-- Refuses arguments that are too many for the parameters named, or too few. `own` is what the callee has
taken already. -/
def checkCount (callee : String) (own : Nat) (names : List String) (given : Nat) : Except Fault Unit :=
  if names.length < given then
    .error (.surplus callee (own + names.length) (own + names.length) (own + given))
  else match names.drop given with
    | [] => .ok ()
    | missing => .error (.missing callee missing)

/-- The name under which an object is made. -/
def initName : String := "__init__"

/-- The name of a callable where it is called. -/
def calledName (c : Callable) : String :=
  if c.isPrimary then initName else escapePython c.name

/-- The name of a callable in messages. -/
def calleeName (owner : Option Object) (c : Callable) : String :=
  match owner with
  | none => calledName c
  | some o => o.name ++ "." ++ calledName c

/-- What a name that stands in a wrapper is called there. -/
def nameInside (owner : Option Object) (name : String) : String :=
  match owner with
  | none => name
  | some o => mangled o.name name

/-- Refuses a wrong number of arguments for a callable. -/
def checkArguments (owner : Option Object) (c : Callable) (given : Nat) : Except Fault Unit :=
  checkCount (calleeName owner c) (PythonModule.receiverParams c).length
    (c.params.map fun p => nameInside owner (escapePython p.name)) given

/-- The last of some callables with a name in its scope. -/
def callable? (owner : Option Object) (cs : List Callable) (name : String) : Option Callable :=
  cs.reverse.find? fun c => nameInside owner (calledName c) == name

/-- What comes of using a member that every object has where a class declares it anew: the wrong number of
arguments, if not an end that is never reached, since such a member is needed to run itself. -/
def overrideFault (o : Object) (member : String) (given : Nat) : Fault :=
  match callable? (some o) o.callables member with
  | none => .unsupported
  | some c =>
    match checkArguments (some o) c (if c.kind = .constructor then given else 0) with
    | .error f => f
    | .ok () => .unsupported

end Bindgen.Native
