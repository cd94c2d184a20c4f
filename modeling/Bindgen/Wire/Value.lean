import Bindgen.Boundary.Codes
import Bindgen.Identifier.Case
import Bindgen.Identifier.Name
import Bindgen.Resolve.Table
import Bindgen.Text.Points
import Bindgen.Wire.Binary
import Bindgen.Wire.Real

/-!
# Values of a running binding

`Value` is what a caller passes and gets: plain values, and instances of the classes that are generated for
the definitions of a schema. A schema is the type table of a model, with the names that functions take away
from definitions. `Value.same` says when two values count as one key of a map, and `Value.unhashable?` which
ones cannot be keys. `Value.used` is a value after everything in it has been gone through.

Left out are views of signed, real or character items or of several dimensions, and instances of classes that a
caller makes up, which may behave in any way.
-/

namespace Bindgen.Wire

open Interface Resolve

/-- The class of a record, of a variant, or of an error as a whole. -/
structure ClassRef where
  /-- The name of the definition. -/
  owner : String
  /-- The place of the variant, counted from 0. -/
  variant : Option Nat
  deriving DecidableEq, Repr

/-- The class of an object: its name, and those of the classes that it refines. -/
structure ObjectClass where
  name : String
  bases : List String
  deriving DecidableEq, Repr

/-- Whether instances of a class are instances of the class `name`. -/
def ObjectClass.isA (c : ObjectClass) (name : String) : Bool :=
  c.name == name || c.bases.contains name

/-- A view of bytes as numbers without sign, each of so many bytes. -/
structure View where
  width : Nat
  bytes : List UInt8
  positive : 0 < width
  whole : width ∣ bytes.length
  deriving DecidableEq, Repr

namespace View

/-- How many numbers there are. -/
def count (w : View) : Nat := w.bytes.length / w.width

/-- The numbers, each with its least byte first. -/
def numbers (w : View) : List Nat :=
  (List.range w.count).map fun i => bytesNat ((w.bytes.drop (i * w.width)).take w.width).reverse

/-- Whether each number is a byte. -/
def isPlain (w : View) : Bool := w.width == 1

end View

/-- Values of a running binding. -/
inductive Value where
  | none
  | bool (b : Bool)
  | int (n : Int)
  /-- A real number, as its 64 bits. -/
  | real (bits : UInt64)
  | text (s : String)
  /-- A text that is none. -/
  | broken (b : Text.Broken)
  | bytes (b : List UInt8)
  /-- Bytes that can be changed. -/
  | byteArray (b : List UInt8)
  | view (w : View)
  | list (items : List Value)
  | tuple (items : List Value)
  | map (entries : List (Value × Value))
  /-- Anything else that gives items, by the name of its class. What gives them but once is used up when it is
  gone through, and has no length; two of them never share their items. -/
  | iterable (className : String) (items : List Value) (once : Bool)
  /-- A record, or a variant of an enum, with its fields. -/
  | instance (cls : ClassRef) (fields : List (String × Value))
  /-- A member of an enum whose variants carry no fields, by its place counted from 0. -/
  | member (owner : String) (index : Nat)
  /-- A declared error. -/
  | failure (cls : ClassRef) (code : Int) (message : String) (fields : List (String × Value))
  /-- An object with the handle that it owns, if it still does, and the label under which it is held. An
  object that was just made is held by nobody. -/
  | object (cls : ObjectClass) (handle : Option Value) (label : Option String)
  deriving Inhabited

/-- The name of a field where it is declared. -/
def fieldName (f : Field) : String := Identifier.escapePython f.name

/-- What the names of a module stand for: definitions, whose classes and converters are used, and functions,
which hide definitions of the same name. -/
structure Schema where
  table : Table
  /-- The names of the functions. -/
  functions : List String
  deriving Repr

namespace Schema

/-- A schema in which nothing has a name. -/
def empty : Schema := ⟨[], []⟩

/-- Whether a definition or function has a name. -/
def isTaken (s : Schema) (name : String) : Bool :=
  name ∈ s.functions || (s.table.lookup name).isSome

/-- The definition that a name stands for. -/
def lookup (s : Schema) (name : String) : Option Definition :=
  if name ∈ s.functions then Option.none else s.table.lookup name

/-- The class that stands for the variant at an index: variants whose class names agree share the last
one. -/
def variantClass (c : Choice) (index : Nat) : Nat :=
  match c.variants[index]? with
  | Option.none => index
  | some v =>
    let key := Identifier.pascal v.name
    let later := (c.variants.zipIdx.filter fun (w, _) => Identifier.pascal w.name == key).getLast?
    (later.map (·.2)).getD index

/-- The enum or error whose variants have classes of their own. -/
def choice? : Definition → Option Choice
  | .enum c => if c.isFlat then Option.none else some c
  | .error c => some c
  | _ => Option.none

/-- The name of a class. -/
def className (s : Schema) (cls : ClassRef) : String :=
  match cls.variant with
  | Option.none => cls.owner
  | some index =>
    let variant := ((s.table.lookup cls.owner).bind choice?).bind (·.variants[index]?)
    "_" ++ cls.owner ++ "_" ++ Identifier.pascal ((variant.map (·.name)).getD "")

/-- The class that the attribute `attr` of an enum or error is. -/
def variantNamed? (s : Schema) (owner attr : String) : Option ClassRef := do
  let c ← (s.lookup owner).bind choice?
  let index ← c.variants.findIdx? fun v => Identifier.pascal v.name == attr
  return ⟨owner, some (variantClass c index)⟩

/-- Whether a class is one of errors. -/
def isError (s : Schema) (cls : ClassRef) : Bool :=
  match s.table.lookup cls.owner with
  | some (.error _) => true
  | _ => false

/-- The attribute that holds a field in the instances of a class. -/
def fieldAttr (s : Schema) (cls : ClassRef) (f : Field) : String :=
  Identifier.mangled (s.className cls) (fieldName f)

/-- The attributes that the instances of a class have for their fields. -/
def attributes (s : Schema) (cls : ClassRef) : List String :=
  match cls.variant, s.table.lookup cls.owner with
  | Option.none, some (.record r) => r.fields.map (s.fieldAttr cls)
  | some index, some (.enum c) | some index, some (.error c) =>
    match c.variants[index]? with
    | some v => v.fields.map (s.fieldAttr cls)
    | Option.none => []
  | _, _ => []

/-- The attribute of an enum without fields for a variant. -/
def memberAttr (owner : String) (v : Variant) : String :=
  Identifier.mangled owner (Identifier.upperSnake v.name)

/-- Whether a variant of an enum without fields is a member of it: private names and those between double low
lines are set apart. -/
def isMember (owner : String) (v : Variant) : Bool :=
  let attr := memberAttr owner v
  !Identifier.isOwnOf owner attr && !Identifier.isDunder attr

/-- The name of the member at an index of an enum. -/
def memberName (s : Schema) (owner : String) (index : Nat) : String :=
  match s.table.lookup owner with
  | some (.enum c) => ((c.variants[index]?).map (memberAttr owner)).getD ""
  | _ => ""

/-- The place of the member with a number in an enum. -/
def memberPlace? (c : Choice) (number : Int) : Option Nat :=
  if number < firstVariant then Option.none
  else
    let index := (number - firstVariant).toNat
    (c.variants[index]?).bind fun v => if isMember c.name v then some index else Option.none

end Schema

namespace Value

/-- The name of the class of a value. -/
def typeName (s : Schema) : Value → String
  | none => "NoneType"
  | bool _ => "bool"
  | int _ => "int"
  | real _ => "float"
  | text _ | broken _ => "str"
  | bytes _ => "bytes"
  | byteArray _ => "bytearray"
  | view _ => "memoryview"
  | list _ => "list"
  | tuple _ => "tuple"
  | map _ => "dict"
  | iterable className _ _ => className
  | .instance cls _ => s.className cls
  | member owner _ => owner
  | failure cls .. => s.className cls
  | object cls .. => cls.name

/-- The number that a value counts as among keys: an integer or the bits of a real number. -/
def number? : Value → Option (Int ⊕ UInt64)
  | bool b => some (.inl (if b then 1 else 0))
  | int n => some (.inl n)
  | real bits => some (.inr bits)
  | _ => Option.none

/-- Whether two numbers are equal. -/
def sameNumber : Int ⊕ UInt64 → Int ⊕ UInt64 → Bool
  | .inl m, .inl n => m == n
  | .inl n, .inr bits | .inr bits, .inl n => isInteger bits.toNat n
  | .inr a, .inr b => sameReal a.toNat b.toNat

mutual

/-- Whether two values are one key. Numbers are compared by what they are worth, views by their bytes, objects by
label, and every error is a key of its own. -/
def same : Value → Value → Bool
  | none, none => true
  | text a, text b => a == b
  | broken a, broken b => a == b
  | bytes a, bytes b => a == b
  | view a, bytes b | bytes b, view a => a.isPlain && a.bytes == b
  | view a, view b => a.isPlain && b.isPlain && a.bytes == b.bytes
  | tuple xs, tuple ys => sameAll xs ys
  | member e i, member f j => e == f && i == j
  | object _ _ (some i), object _ _ (some j) => i == j
  | a, b => match a.number?, b.number? with
    | some m, some n => sameNumber m n
    | _, _ => false

/-- Whether two lists hold the same keys in the same order. -/
def sameAll : List Value → List Value → Bool
  | [], [] => true
  | x :: xs, y :: ys => same x y && sameAll xs ys
  | _, _ => false

end

mutual

/-- The name of the class that keeps a value from being a key. What gives items without being one of the usual
sequences is taken for none that can be a key. -/
def unhashable? (s : Schema) : Value → Option String
  | list _ => some "list"
  | map _ => some "dict"
  | byteArray _ => some "bytearray"
  | view w => if w.isPlain then Option.none else some "memoryview"
  | iterable className _ _ => some className
  | .instance cls _ => some (s.className cls)
  | tuple xs => unhashableAmong? s xs
  | _ => Option.none

/-- The first such class among some values. -/
def unhashableAmong? (s : Schema) : List Value → Option String
  | [] => Option.none
  | x :: xs => match unhashable? s x with
    | some name => some name
    | Option.none => unhashableAmong? s xs

end

/-- Sets the value of a key: a key that is there keeps its place and its first form. -/
def insert (key value : Value) : List (Value × Value) → List (Value × Value)
  | [] => [(key, value)]
  | (k, v) :: rest => if k.same key then (k, value) :: rest else (k, v) :: insert key value rest

/-- What a program holds as a text, as a value. -/
def ofStr : Text.Str → Value
  | .text s => text s
  | .broken b => broken b

/-- The items of a value where a sequence is asked for. -/
def items? : Value → Option (List Value)
  | list xs | tuple xs | iterable _ xs _ => some xs
  | map entries => some (entries.map (·.1))
  | byteArray b => some (b.map fun x => int x.toNat)
  | view w => some (w.numbers.map fun (n : Nat) => int n)
  | _ => Option.none

/-- The items of a value that anything can be taken from, one after another: with the items of a sequence
also the characters of a text and the numbers of bytes. -/
def parts? : Value → Option (List Value)
  | text s => some (s.toList.map fun c => text c.toString)
  | broken b => some (b.points.map fun p => ofStr (.ofPoints [p]))
  | bytes b => some (b.map fun x => int x.toNat)
  | v => v.items?

/-- Whether a value gives its items only once. -/
def givesOnce : Value → Bool
  | iterable _ _ once => once
  | _ => false

/-- The value of an attribute: a field of an instance or error, or what comes with every error, number and
member of an enum. -/
def attr? (s : Schema) (v : Value) (name : String) : Option Value :=
  match v with
  | .instance _ fields => fields.lookup name
  | failure _ code message fields =>
    match fields.lookup name, name with
    | some w, _ => some w
    | _, "code" => some (int code)
    | _, "message" => some (text message)
    | _, "args" => some (tuple [text message])
    | _, _ => Option.none
  | member owner index =>
    match name with
    | "name" => some (text (s.memberName owner index))
    | "value" => some (int (index + firstVariant : Nat))
    | _ => Option.none
  | int n =>
    match name with
    | "real" | "numerator" => some (int n)
    | "imag" => some (int 0)
    | "denominator" => some (int 1)
    | _ => Option.none
  | bool b =>
    match name with
    | "real" | "numerator" => some (int (if b then 1 else 0))
    | "imag" => some (int 0)
    | "denominator" => some (int 1)
    | _ => Option.none
  | real bits =>
    match name with
    | "real" => some (real bits)
    | "imag" => some (real 0)
    | _ => Option.none
  | _ => Option.none

/-- Whether a value is nothing. -/
def isNone : Value → Bool
  | none => true
  | _ => false

/-- The class of an instance or error. -/
def class? : Value → Option ClassRef
  | .instance cls _ => some cls
  | failure cls .. => some cls
  | _ => Option.none

mutual

/-- A value built anew. An object has the handle that `handleOf` gives for its handle and label, and where `spent` is
set, what gives its items only once has none left. -/
def rebuilt (handleOf : Option Value → Option String → Option Value) (spent : Bool) : Value → Value
  | list xs => list (rebuiltAll handleOf spent xs)
  | tuple xs => tuple (rebuiltAll handleOf spent xs)
  | map entries => map (rebuiltEntries handleOf spent entries)
  | iterable className xs once =>
    iterable className (if spent && once then [] else rebuiltAll handleOf spent xs) once
  | .instance cls fields => .instance cls (rebuiltFields handleOf spent fields)
  | failure cls code message fields => failure cls code message (rebuiltFields handleOf spent fields)
  | object cls handle label => object cls (handleOf handle label) label
  | v => v

/-- Some values built anew. -/
def rebuiltAll (handleOf : Option Value → Option String → Option Value) (spent : Bool) : List Value → List Value
  | [] => []
  | v :: rest => rebuilt handleOf spent v :: rebuiltAll handleOf spent rest

/-- Some entries built anew. -/
def rebuiltEntries (handleOf : Option Value → Option String → Option Value) (spent : Bool) :
    List (Value × Value) → List (Value × Value)
  | [] => []
  | (k, v) :: rest => (rebuilt handleOf spent k, rebuilt handleOf spent v) :: rebuiltEntries handleOf spent rest

/-- Some fields built anew. -/
def rebuiltFields (handleOf : Option Value → Option String → Option Value) (spent : Bool) :
    List (String × Value) → List (String × Value)
  | [] => []
  | (name, v) :: rest => (name, rebuilt handleOf spent v) :: rebuiltFields handleOf spent rest

end

/-- **A value after everything in it has been gone through**: what gives its items only once has none left. -/
def used : Value → Value := rebuilt (fun handle _ => handle) true

mutual

/-- Whether there is a tuple in a value. -/
def hasTuple : Value → Bool
  | tuple _ => true
  | list xs | iterable _ xs _ => hasTupleAmong xs
  | map entries => hasTupleInEntries entries
  | .instance _ fields | failure _ _ _ fields => hasTupleInFields fields
  | _ => false

/-- Whether there is a tuple in some values. -/
def hasTupleAmong : List Value → Bool
  | [] => false
  | v :: rest => hasTuple v || hasTupleAmong rest

/-- Whether there is a tuple in some entries. -/
def hasTupleInEntries : List (Value × Value) → Bool
  | [] => false
  | (k, v) :: rest => hasTuple k || hasTuple v || hasTupleInEntries rest

/-- Whether there is a tuple in some fields. -/
def hasTupleInFields : List (String × Value) → Bool
  | [] => false
  | (_, v) :: rest => hasTuple v || hasTupleInFields rest

end

/-- Whether a value counts as true where a truth value is asked for. -/
def truthy : Value → Bool
  | none => false
  | bool b => b
  | int n => n != 0
  | real bits => FloatFormat.binary64.magnitude bits.toNat != 0
  | text t => t != ""
  | bytes b | byteArray b => !b.isEmpty
  | view w => w.count != 0
  | list xs | tuple xs | iterable _ xs false => !xs.isEmpty
  | map entries => !entries.isEmpty
  | _ => true

end Value

end Bindgen.Wire
