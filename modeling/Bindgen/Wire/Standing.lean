import Bindgen.Emit.Converted
import Bindgen.Wire.Fault

/-!
# Names inside a converter

The converter of a definition refers to its class by name, and what it finds is the first entry of a scope:
a local of the converter, a function of the module, and only then the class. `Schema.standing` says what a
name stands for, and the other functions what it comes to when a converter asks for an instance, makes one,
or asks for a variant.
-/

namespace Bindgen.Wire

open Interface Resolve Emit

/-- What the name of a definition stands for. -/
inductive Standing where
  /-- The class of the definition. -/
  | itself
  /-- The value that the converter works on. -/
  | theValue
  /-- A function. -/
  | function
  /-- Something of another class. -/
  | other (className : String)
  /-- Nothing. -/
  | nothing
  deriving DecidableEq, Repr

/-- The locals of a part of a converter. -/
abbrev Locals := List (String × Standing)

/-- The local that a converter itself has. -/
def ownLocal (name : String) : String × Standing := ("self", .other (converterClass name))

/-- The locals where a value is checked. -/
def checkLocals (name : String) : Locals := [ownLocal name, ("value", .theValue)]

/-- The locals where a value is written. -/
def writeLocals (name : String) : Locals := checkLocals name ++ [("stream", .other "ByteWriter")]

/-- The locals where a value is read. -/
def readLocals (name : String) : Locals := [ownLocal name, ("stream", .other "ByteReader")]

/-- The locals where a value is read after its number. -/
def numberedLocals (name : String) : Locals := readLocals name ++ [("index", .other "int")]

/-- How a class counts among values. -/
def classValue (name : String) : Value := .object ⟨name, []⟩ none none

/-- The member of an object that gives its handle. -/
def handleMember : String := "_require_handle"

/-- The member of an object class that makes an object which owns a handle. -/
def makeMember : String := "_make_instance"

namespace Schema

/-- Finds a name of the module, unless a function has taken it. -/
def find (s : Schema) (name : String) : Except Fault Unit :=
  if name ∈ s.functions then .error .unsupported else .ok ()

/-- What the name of a definition stands for in a part of its converter. A private name is looked for under
another one there. -/
def standing (s : Schema) (locals : Locals) (name : String) : Standing :=
  if Identifier.isPrivate name then .nothing
  else match locals.lookup name with
    | some what => what
    | none => if name ∈ s.functions then .function else .itself

/-- The class of the class of a definition. -/
def metaclassName : Definition → String
  | .enum c => if c.isFlat then "EnumType" else "type"
  | _ => "type"

/-- Asks whether a value is an instance. -/
def askInstance (s : Schema) (d : Definition) (v : Value) : Except Fault Unit :=
  if s.isTaken Builtin.isInstance.name then .error (.diverted .isInstance [v, classValue (metaclassName d)])
  else .ok ()

/-- Asks whether a value is an instance of the class of a definition. -/
def askClass (s : Schema) (locals : Locals) (d : Definition) (v : Value) : Except Fault Unit :=
  match s.standing locals d.name with
  | .nothing => .error .unsupported
  | .itself => s.askInstance d v
  | _ => do
    s.askInstance d v
    throw .notClass

/-- Asks whether a value is an instance of the class of a variant. An instance of any variant knows the
classes of all of them. -/
def askVariant (s : Schema) (locals : Locals) (d : Definition) (v : Value) : Except Fault Unit :=
  match s.standing locals d.name with
  | .itself => s.askInstance d v
  | .theValue =>
    if v.class?.any (·.owner == d.name) then s.askInstance d v else .error .unsupported
  | _ => .error .unsupported

/-- Asks for an instance of an object class. -/
def askObject (s : Schema) (name : String) : Except Fault Unit :=
  match s.standing [ownLocal name] name with
  | .itself => .ok ()
  | .nothing => .error .unsupported
  | _ => .error .notClass

/-- Asks the class of an object for a member that every object has, to use it with a number of arguments. -/
def askMember (s : Schema) (cls member : String) (given : Nat) : Except Fault Unit :=
  match s.table.lookup cls with
  | some (.object o) =>
    if o.callables.any (·.name == member) then .error (.overridden cls member given) else .ok ()
  | _ => .ok ()

end Schema

namespace Standing

/-- Whether anything is found. -/
def found : Standing → Except Fault Unit
  | nothing => .error .unsupported
  | _ => .ok ()

/-- Whether what is called to make an instance is the class. -/
def called : Standing → Except Fault Unit
  | itself => .ok ()
  | other className => .error (.notCallable className)
  | _ => .error .unsupported

/-- Whether what is asked for a variant, or to own a handle, is the class. -/
def asked : Standing → Except Fault Unit
  | itself => .ok ()
  | _ => .error .unsupported

end Standing

end Bindgen.Wire
