/-!
# Interface types

`Ty` is the language of types in an interface: primitives, text, bytes, the composites `optional`,
`sequence`, `map` and `box`, and references to definitions by name. `text` is how a type is written in an
interface, `canonical` the name under which generated code refers to it.
-/

namespace Bindgen.Interface

/-- Fixed-width numbers and the boolean. -/
inductive Prim where
  | i8 | u8 | i16 | u16 | i32 | u32 | i64 | u64 | f32 | f64 | bool
  deriving DecidableEq, Repr

namespace Prim

/-- All primitives, narrow before wide and signed before unsigned. -/
def all : List Prim := [i8, u8, i16, u16, i32, u32, i64, u64, f32, f64, bool]

/-- The word for a primitive in a type expression. -/
def text : Prim → String
  | i8 => "i8" | u8 => "u8" | i16 => "i16" | u16 => "u16" | i32 => "i32" | u32 => "u32"
  | i64 => "i64" | u64 => "u64" | f32 => "f32" | f64 => "f64" | bool => "bool"

/-- The name of a primitive in generated code. -/
def canonical : Prim → String
  | i8 => "Int8" | u8 => "UInt8" | i16 => "Int16" | u16 => "UInt16" | i32 => "Int32"
  | u32 => "UInt32" | i64 => "Int64" | u64 => "UInt64" | f32 => "Float32" | f64 => "Float64"
  | bool => "Boolean"

/-- The primitive that a word stands for. -/
def ofText? (word : String) : Option Prim :=
  all.find? (·.text == word)

/-- The complaint about a word that stands for no primitive. -/
def unknownMessage (word : String) : String :=
  s!"unknown primitive type '{word}'"

theorem mem_all (p : Prim) : p ∈ all := by
  cases p <;> decide

theorem ofText?_text (p : Prim) : ofText? p.text = some p := by
  cases p <;> decide

end Prim

/-- Interface types. -/
inductive Ty where
  | prim (p : Prim)
  | string
  | bytes
  | optional (inner : Ty)
  | sequence (inner : Ty)
  | map (key value : Ty)
  /-- A reference to a record, enum, error or object. -/
  | named (name : String)
  /-- Explicit indirection: the value of the inner type, at the end of a reference. -/
  | box (inner : Ty)
  deriving DecidableEq, Repr

namespace Ty

/-- A type as it is written in an interface. -/
def text : Ty → String
  | prim p => p.text
  | string => "string"
  | bytes => "bytes"
  | optional t => "optional<" ++ t.text ++ ">"
  | sequence t => "sequence<" ++ t.text ++ ">"
  | map k v => "map<" ++ k.text ++ ", " ++ v.text ++ ">"
  | named n => n
  | box t => "box<" ++ t.text ++ ">"

/-- The name of a type in generated code. The length of the key's name keeps `map<A, BTypeC>` and
`map<ATypeB, C>` apart. -/
def canonical : Ty → String
  | prim p => p.canonical
  | string => "String"
  | bytes => "Bytes"
  | optional t => "Optional" ++ t.canonical
  | sequence t => "Sequence" ++ t.canonical
  | map k v => "Map" ++ toString k.canonical.length ++ k.canonical ++ v.canonical
  | named n => "Type" ++ n
  | box t => "Box" ++ t.canonical

/-- The types directly inside a composite. -/
def children : Ty → List Ty
  | optional t | sequence t | box t => [t]
  | map k v => [k, v]
  | _ => []

/-- Whether a type is built from other types. -/
def isComposite : Ty → Bool
  | optional _ | sequence _ | map _ _ | box _ => true
  | _ => false

/-- A type without the boxes around it. -/
def unbox : Ty → Ty
  | box t => t.unbox
  | t => t

/-- How many boxes occur in a type. -/
def boxes : Ty → Nat
  | box t => t.boxes + 1
  | optional t | sequence t => t.boxes
  | map k v => k.boxes + v.boxes
  | _ => 0

end Ty

end Bindgen.Interface
