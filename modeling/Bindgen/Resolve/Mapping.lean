import Bindgen.Boundary.Shape
import Bindgen.Resolve.Check

/-!
# From interface types to boundary shapes

`Table.shape` gives the shape in which a value of a type crosses the boundary, `Table.conversion` the way in
which it is brought into that shape. `Checker.map` checks the type first.
-/

namespace Bindgen.Resolve

open Interface Boundary

/-- How a value is brought into the shape that crosses the boundary. -/
inductive Conversion where
  /-- A number is passed as it is. -/
  | direct
  /-- A boolean becomes the byte 0 or 1. -/
  | boolByte
  /-- Text and bytes are the contents of a buffer. -/
  | rawBuffer
  /-- The wire encoding is the contents of a buffer. -/
  | serialized
  /-- An object is known by its handle. -/
  | handle
  deriving DecidableEq, Repr

/-- The word for a conversion. -/
def Conversion.text : Conversion → String
  | direct => "direct"
  | boolByte => "bool_byte"
  | rawBuffer => "raw_buffer"
  | serialized => "serialized"
  | handle => "handle"

/-- Whether the value travels in a buffer. -/
def Conversion.usesBuffer : Conversion → Bool
  | rawBuffer | serialized => true
  | _ => false

namespace Table

/-- The shape of a type whose names are known to the table. -/
def shape (table : Table) : Ty → Except Failure Shape
  | .prim p => .ok (.ofPrim p)
  | .box t => shape table t
  | .named name => do
    return if (← table.resolve name none).isObject then .handle else .buffer
  | _ => .ok .buffer

/-- The conversion of a type whose names are known to the table. -/
def conversion (table : Table) : Ty → Except Failure Conversion
  | .prim .bool => .ok .boolByte
  | .prim _ => .ok .direct
  | .string | .bytes => .ok .rawBuffer
  | .box t => conversion table t
  | .named name => do
    return if (← table.resolve name none).isObject then .handle else .serialized
  | _ => .ok .serialized

/-- Whether a name stands for an object. -/
def isObject (table : Table) (name : String) : Bool :=
  (table.lookup name).any (·.isObject)

/-- The conversion of a type in a checked model, where every name that is no object's is a value's. -/
def conversionOf (table : Table) : Ty → Conversion
  | .prim .bool => .boolByte
  | .prim _ => .direct
  | .string | .bytes => .rawBuffer
  | .box t => conversionOf table t
  | .named name => if table.isObject name then .handle else .serialized
  | _ => .serialized

theorem conversion_eq_ok {table : Table} {t : Ty} {c : Conversion}
    (h : table.conversion t = .ok c) : table.conversionOf t = c := by
  induction t with
  | prim p => cases p <;> simpa [conversion, conversionOf] using h
  | named name =>
    cases hl : table.lookup name with
    | none => simp [conversion, resolve, hl, bind, Except.bind] at h
    | some d =>
      simp only [conversion, resolve, hl, bind, Except.bind, pure, Except.pure, Except.ok.injEq] at h
      simp [conversionOf, isObject, hl, h]
  | box t ih => exact ih h
  | _ => simpa [conversion, conversionOf] using h

end Table

/-- The shape of a type that is used in `context`, after checking it. -/
def Checker.map (c : Checker) (t : Ty) (context : Option String) : Except Failure (Shape × Checker) := do
  let c ← c.check t context
  return (← c.table.shape t, c)

end Bindgen.Resolve
