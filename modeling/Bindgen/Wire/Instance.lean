import Bindgen.Wire.Fault

/-!
# Instances of generated classes

An instance is made of fields that are given by name. A record or variant takes exactly its own
(`makeInstance`). A variant of an error takes a message besides them, and leaves unset what is not given
(`makeFailure`).
-/

namespace Bindgen.Wire

open Interface

namespace Schema

/-- What makes the instances of a class, by its name in messages. -/
def makerName (s : Schema) (cls : ClassRef) : String := s.className cls ++ ".__init__"

/-- Whether a field of a class has a value where none is given: its name is one that every class knows, or is
that of an earlier variant. -/
def hasDefault (s : Schema) (cls : ClassRef) (attr : String) : Bool :=
  let earlier : List Variant := match cls.variant, (s.table.lookup cls.owner).bind choice? with
    | some index, some c => c.variants.take index
    | _, _ => []
  attr ∈ Identifier.classNames || earlier.any fun v => Identifier.pascal v.name == attr

/-- The first name that is given to a class and that it does not know is wrong. -/
def checkKnown (s : Schema) (cls : ClassRef) (given : List (String × Value)) : Except Fault Unit :=
  match given.find? fun (name, _) => name ∉ s.attributes cls with
  | some (name, _) => .error (.unexpected (s.makerName cls) name)
  | none => .ok ()

/-- The value that a field of an instance gets, unless its name is one that an instance needs itself. -/
def instanceField (s : Schema) (attr : String) (v : Value) : Except Fault (String × Value) :=
  match attr with
  | "__class__" => .error (.notItsClass (v.typeName s))
  | "__weakref__" => .error .unsupported
  | attr => .ok (attr, v)

/-- The instance of a record or of a variant with the fields given. -/
def makeInstance (s : Schema) (cls : ClassRef) (given : List (String × Value)) : Except Fault Value := do
  s.checkKnown cls given
  let attrs := s.attributes cls
  let unset := attrs.filter fun a => (given.lookup a).isNone
  let missing := unset.filter fun a => !s.hasDefault cls a
  if !missing.isEmpty then throw (.missing (s.makerName cls) missing)
  if !unset.isEmpty then throw .unsupported
  let fields ← (attrs.filterMap fun a => (given.lookup a).map (a, ·)).mapM fun (a, v) => s.instanceField a v
  return .instance cls fields

/-- A field that every error has: it holds the items of what it is given. -/
def itemsName : String := "args"

/-- The fields that say what an error comes from. Each is another error, or nothing. -/
def originNames : List String := ["__cause__", "__context__", "__traceback__"]

/-- The value that a field of an error gets, unless its name is one that an error needs itself. -/
def failureField (s : Schema) (attr : String) (v : Value) : Except Fault (String × Value) :=
  if attr = itemsName then
    match v.parts? with
    | some items => .ok (attr, .tuple items)
    | none => .error (.notIterable (v.typeName s))
  else match attr with
    | "__dict__" => .error (.notItsFields (v.typeName s))
    | "__class__" | "__weakref__" | "__suppress_context__" => .error .unsupported
    | attr => if attr ∈ originNames && !v.isNone then .error .unsupported else .ok (attr, v)

/-- The error of a variant with the fields given. -/
def makeFailure (s : Schema) (cls : ClassRef) (message : String) (given : List (String × Value)) :
    Except Fault Value := do
  s.checkKnown cls given
  let all := (s.attributes cls).map fun a => (a, (given.lookup a).getD .none)
  match all.lookup Builtin.parent.name with
  | some v => throw (.notCallable (v.typeName s))
  | none => if s.isTaken Builtin.parent.name then throw (.diverted .parent [])
  let fields ← all.mapM fun (a, v) => s.failureField a v
  return .failure cls ((cls.variant.getD 0 : Nat) + firstVariant) message fields

/-! ## By name -/

/-- What a variant of an enum without fields is under its name: a member, or its plain number where the name
sets it apart. -/
def memberNamed? (s : Schema) (owner attr : String) : Option Value :=
  match s.lookup owner with
  | some (.enum c) =>
    if c.isFlat then
      (c.variants.zipIdx.find? fun (v, _) => memberAttr owner v == attr).map fun (v, index) =>
        if isMember owner v then .member owner index else .int (index + firstVariant : Nat)
    else none
  | _ => none

/-- What makes values from named fields. -/
abbrev Maker := List (String × Value) → Except Fault Value

/-- What makes the records of a name. -/
def recordMaker? (s : Schema) (name : String) : Option Maker :=
  match s.lookup name with
  | some (.record _) => some (s.makeInstance ⟨name, none⟩)
  | _ => none

/-- What makes the values of a variant by its name, errors with a message. A variant that is a value itself
makes none. -/
def variantMaker? (s : Schema) (owner attr message : String) : Option Maker :=
  match s.variantNamed? owner attr with
  | some cls => some (if s.isError cls then s.makeFailure cls message else s.makeInstance cls)
  | none => (s.memberNamed? owner attr).map fun v _ => .error (.notCallable (v.typeName s))

end Schema

namespace Value

/-- What an error shows as its code. -/
def failureCode (code : Int) (fields : List (String × Value)) : Value :=
  (fields.lookup "code").getD (int code)

/-- What an error shows as its message. -/
def failureMessage (message : String) (fields : List (String × Value)) : Value :=
  (fields.lookup "message").getD (text message)

/-- The fields that an error shows. -/
def failureFields (fields : List (String × Value)) : List (String × Value) :=
  fields.filter fun (name, _) => name ∉ ["code", "message", Schema.itemsName]

/-- Sets the value of a key, which has to be one. -/
def insert? (s : Schema) (key value : Value) (entries : List (Value × Value)) :
    Except Fault (List (Value × Value)) :=
  match key.unhashable? s with
  | some name => .error (.unhashable name)
  | Option.none => .ok (insert key value entries)

/-- The map of some entries, which are set one after another. -/
def ofEntries (s : Schema) (entries : List (Value × Value)) : Except Fault Value :=
  map <$> entries.foldlM (fun acc (k, v) => insert? s k v acc) []

end Value

end Bindgen.Wire
