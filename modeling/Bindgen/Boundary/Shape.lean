import Bindgen.Interface.Model

/-!
# Shapes at the boundary

Everything that crosses between generated code and the native library has one of fifteen shapes. A
`Signature` is one exported symbol in those terms: its arguments with who frees what, and its result.
-/

namespace Bindgen.Boundary

open Interface

/-- The representations that may cross the boundary. -/
inductive Shape where
  | int8 | uint8 | int16 | uint16 | int32 | uint32 | int64 | uint64
  | float32 | float64
  /-- One byte, 0 or 1. -/
  | bool
  /-- A buffer record by value. -/
  | buffer
  /-- A borrowed view of bytes by value. -/
  | byteView
  /-- A 64-bit number that only the native library can interpret. -/
  | handle
  /-- An out-parameter that takes an error record. -/
  | errorRecord
  deriving DecidableEq, Repr

namespace Shape

/-- All shapes. -/
def all : List Shape :=
  [int8, uint8, int16, uint16, int32, uint32, int64, uint64, float32, float64, bool, buffer, byteView,
   handle, errorRecord]

/-- The word for a shape. -/
def text : Shape → String
  | int8 => "int8" | uint8 => "uint8" | int16 => "int16" | uint16 => "uint16" | int32 => "int32"
  | uint32 => "uint32" | int64 => "int64" | uint64 => "uint64" | float32 => "float32"
  | float64 => "float64" | bool => "bool" | buffer => "buffer" | byteView => "byte_view"
  | handle => "handle" | errorRecord => "error_record"

/-- The shape of a primitive. -/
def ofPrim : Prim → Shape
  | .i8 => int8 | .u8 => uint8 | .i16 => int16 | .u16 => uint16 | .i32 => int32 | .u32 => uint32
  | .i64 => int64 | .u64 => uint64 | .f32 => float32 | .f64 => float64 | .bool => bool

end Shape

/-- Who frees the memory behind an argument. -/
inductive Ownership where
  /-- The caller allocates; valid during the call. -/
  | borrowed
  /-- The caller gives it away; the callee frees. -/
  | transferred
  /-- The callee allocates; the caller frees. -/
  | callerOwned
  deriving DecidableEq, Repr

/-- The word for an ownership. -/
def Ownership.text : Ownership → String
  | borrowed => "borrowed"
  | transferred => "transferred"
  | callerOwned => "caller_owned"

/-- One argument of an exported symbol. -/
structure Argument where
  name : String
  shape : Shape
  ownership : Ownership
  deriving DecidableEq, Repr

/-- One exported symbol. A callable that throws has the error record as its last argument; `source` is the
callable behind the symbol and `owner` the object, both absent for support functions. -/
structure Signature where
  name : String
  arguments : List Argument
  returns : Option Shape
  error : Option String
  source : Option Callable
  owner : Option Object
  deriving DecidableEq, Repr

namespace Signature

/-- Whether the symbol reports errors through an out-parameter. -/
def hasErrorOut (s : Signature) : Bool :=
  s.error.isSome

/-- The arguments without the error record at the end. -/
def valueArguments (s : Signature) : List Argument :=
  if s.hasErrorOut then s.arguments.dropLast else s.arguments

/-- What is left of a signature without its names. -/
def form (s : Signature) : List (Shape × Ownership) × Option Shape :=
  (s.arguments.map fun a => (a.shape, a.ownership), s.returns)

end Signature

end Bindgen.Boundary
