import Bindgen.Boundary.Shape
import Bindgen.Config.Settings
import Bindgen.Resolve.Mapping

/-!
# Backends

Three backends generate code: a header for C, a module for Python and a source file for Kotlin. A backend
spells every boundary shape in its language, and works from a `Surface`: the model, its type table, its
derived symbols and the settings. It never derives a shape by itself.
-/

namespace Bindgen.Emit

open Interface Boundary Resolve Config

/-- The languages that code is generated for. -/
inductive Backend where
  | c
  | python
  | kotlin
  deriving DecidableEq, Repr

namespace Backend

/-- All backends, in the order in which they are listed. -/
def all : List Backend := [c, python, kotlin]

/-- The name of a backend in settings. -/
def text : Backend → String
  | c => "c"
  | python => "python"
  | kotlin => "kotlin"

/-- The backend of a name. -/
def ofText? (name : String) : Option Backend :=
  all.find? (·.text == name)

/-- How a backend spells a shape. -/
def spelling : Backend → Shape → String
  | c, .int8 | c, .bool => "int8_t"
  | c, .uint8 => "uint8_t"
  | c, .int16 => "int16_t"
  | c, .uint16 => "uint16_t"
  | c, .int32 => "int32_t"
  | c, .uint32 => "uint32_t"
  | c, .int64 => "int64_t"
  | c, .uint64 | c, .handle => "uint64_t"
  | c, .float32 => "float"
  | c, .float64 => "double"
  | c, .buffer => "BufferRecord"
  | c, .byteView => "ByteView"
  | c, .errorRecord => "ErrorRecord*"
  | python, .int8 | python, .bool => "ctypes.c_int8"
  | python, .uint8 => "ctypes.c_uint8"
  | python, .int16 => "ctypes.c_int16"
  | python, .uint16 => "ctypes.c_uint16"
  | python, .int32 => "ctypes.c_int32"
  | python, .uint32 => "ctypes.c_uint32"
  | python, .int64 => "ctypes.c_int64"
  | python, .uint64 | python, .handle => "ctypes.c_uint64"
  | python, .float32 => "ctypes.c_float"
  | python, .float64 => "ctypes.c_double"
  | python, .buffer => "_rt.BufferRecord"
  | python, .byteView => "_rt.ByteView"
  | python, .errorRecord => "ctypes.POINTER(_rt.ErrorRecord)"
  | kotlin, .int8 | kotlin, .uint8 | kotlin, .bool => "Byte"
  | kotlin, .int16 | kotlin, .uint16 => "Short"
  | kotlin, .int32 | kotlin, .uint32 => "Int"
  | kotlin, .int64 | kotlin, .uint64 | kotlin, .handle => "Long"
  | kotlin, .float32 => "Float"
  | kotlin, .float64 => "Double"
  | kotlin, .buffer => "BufferRecord.ByValue"
  | kotlin, .byteView => "ByteView.ByValue"
  | kotlin, .errorRecord => "ErrorRecord.ByReference"

end Backend

/-- Which shapes a backend can spell, and how. -/
abbrev Spelling := Backend → Shape → Option String

/-- The spelling that knows every shape. -/
def Spelling.full : Spelling := fun b s => some (b.spelling s)

/-- The line that marks generated files. -/
def notice : String := "AUTO-GENERATED - DO NOT EDIT"

/-- What a backend works from. -/
structure Surface where
  model : Model
  table : Table
  symbols : List Signature
  settings : Settings
  spelling : Spelling

namespace Surface

/-- The namespace of the model. -/
def ns (s : Surface) : String := s.model.ns

/-- The base name of the native library. -/
def library (s : Surface) : String := (s.settings.libraryFor s.ns).literal.bare

/-- How a backend spells a shape, if it can. -/
def spell (s : Surface) (b : Backend) (shape : Shape) : Except Failure String :=
  match s.spelling b shape with
  | some word => .ok word
  | none => .error (.emission b.text shape.text)

/-- How a backend spells a result, `void` being its word for none. -/
def spellResult (s : Surface) (b : Backend) (void : String) (returns : Option Shape) :
    Except Failure String :=
  match returns with
  | some shape => s.spell b shape
  | none => .ok void

/-- An option that has to be a text. One that is not set, or is set to something empty, takes the default;
any other value that is no text cannot be used. -/
def textOption (s : Surface) (b : Backend) (key default : String) : Except Failure String :=
  match s.settings.option? b.text key with
  | .error f => .error f
  | .ok none => .ok default
  | .ok (some (.string v)) => .ok (if v == "" then default else v)
  | .ok (some v) => if v.truthy then .error .uncovered else .ok default

/-- The symbols of free functions. -/
def functions (s : Surface) : List Signature :=
  s.symbols.filter fun f => f.source.isSome && f.owner.isNone

/-- The symbols of the constructors and methods of an object. -/
def objectFunctions (s : Surface) (o : Object) : List Signature :=
  s.symbols.filter fun f => f.source.isSome && f.owner.any (·.name == o.name)

/-- The symbol that releases the handles of an object. -/
def release? (s : Surface) (o : Object) : Option Signature :=
  s.symbols.find? fun f => f.source.isNone && f.owner.any (·.name == o.name)

/-- The name of that symbol. -/
def releaseSymbol (s : Surface) (o : Object) : String :=
  ((s.release? o).map (·.name)).getD ""

end Surface

end Bindgen.Emit
