import Bindgen.Proofs.Resolve.Defined

/-!
# Shapes and conversions agree

The shape of a type says what crosses the boundary for a value of it, and the conversion how the value is brought
there. Both look behind boxes and look up names, but each goes through the types by itself. They agree on every
type (`conversionOf_suits`): what is encoded travels in a buffer, objects are known by handles, booleans become
bytes, and numbers are passed as they are.
-/

namespace Bindgen.Boundary

open Interface

/-- The shape of a number. -/
def Shape.IsNumber (shape : Shape) : Prop := ∃ p ∈ Prim.all, p ≠ .bool ∧ shape = .ofPrim p

instance (shape : Shape) : Decidable shape.IsNumber := inferInstanceAs (Decidable (∃ p ∈ Prim.all, _))

end Bindgen.Boundary

namespace Bindgen.Resolve

open Interface Boundary

/-- **A conversion that suits a shape**: each kind of conversion is for one kind of shape. -/
structure Conversion.Suits (conversion : Conversion) (shape : Shape) : Prop where
  buffer : shape = .buffer ↔ conversion = .rawBuffer ∨ conversion = .serialized
  handle : shape = .handle ↔ conversion = .handle
  bool : shape = .bool ↔ conversion = .boolByte
  number : shape.IsNumber ↔ conversion = .direct

variable {table : Table} {t : Ty}

theorem suits_rawBuffer : Conversion.Suits .rawBuffer .buffer := ⟨by decide, by decide, by decide, by decide⟩

theorem suits_serialized : Conversion.Suits .serialized .buffer := ⟨by decide, by decide, by decide, by decide⟩

theorem suits_handle : Conversion.Suits .handle .handle := ⟨by decide, by decide, by decide, by decide⟩

theorem suits_boolByte : Conversion.Suits .boolByte .bool := ⟨by decide, by decide, by decide, by decide⟩

theorem suits_direct {p : Prim} (hp : p ≠ .bool) : Conversion.Suits .direct (.ofPrim p) := by
  cases p with
  | bool => exact absurd rfl hp
  | _ => exact ⟨by decide, by decide, by decide, by decide⟩

/-- **How the values of a type cross the boundary**, with what stands behind the boxes. -/
inductive Crossing (table : Table) (t : Ty) : Prop
  | number {p : Prim} (number : p ≠ .bool) (unbox : t.unbox = .prim p) (shape : table.shapeOf t = .ofPrim p)
      (conversion : table.conversionOf t = .direct)
  | boolean (unbox : t.unbox = .prim .bool) (shape : table.shapeOf t = .bool)
      (conversion : table.conversionOf t = .boolByte)
  | object {name : String} (unbox : t.unbox = .named name) (isObject : table.isObject name = true)
      (shape : table.shapeOf t = .handle) (conversion : table.conversionOf t = .handle)
  | raw (shape : table.shapeOf t = .buffer) (conversion : table.conversionOf t = .rawBuffer)
  | encoded (shape : table.shapeOf t = .buffer) (conversion : table.conversionOf t = .serialized)

theorem crossing (table : Table) (t : Ty) : Crossing table t := by
  induction t with
  | prim p =>
    cases p with
    | bool => exact .boolean rfl rfl rfl
    | _ => exact .number (by decide) rfl rfl rfl
  | string | bytes => exact .raw rfl rfl
  | optional | sequence | map => exact .encoded rfl rfl
  | box t ih =>
    cases ih with
    | number hp unbox shape conversion => exact .number hp unbox shape conversion
    | boolean unbox shape conversion => exact .boolean unbox shape conversion
    | object unbox isObject shape conversion => exact .object unbox isObject shape conversion
    | raw shape conversion => exact .raw shape conversion
    | encoded shape conversion => exact .encoded shape conversion
  | named name =>
    cases hobject : table.isObject name with
    | true => exact .object rfl hobject (by simp [Table.shapeOf, hobject]) (by simp [Table.conversionOf, hobject])
    | false => exact .encoded (by simp [Table.shapeOf, hobject]) (by simp [Table.conversionOf, hobject])

/-- **The conversion of a type suits its shape**, whatever the type is made of. -/
theorem conversionOf_suits (table : Table) (t : Ty) : (table.conversionOf t).Suits (table.shapeOf t) := by
  cases crossing table t with
  | number hp _ shape conversion => exact shape ▸ conversion ▸ suits_direct hp
  | boolean _ shape conversion => exact shape ▸ conversion ▸ suits_boolByte
  | object _ _ shape conversion => exact shape ▸ conversion ▸ suits_handle
  | raw shape conversion => exact shape ▸ conversion ▸ suits_rawBuffer
  | encoded shape conversion => exact shape ▸ conversion ▸ suits_serialized

/-- Buffers are for what is encoded. -/
theorem usesBuffer_iff : (table.conversionOf t).usesBuffer = true ↔ table.shapeOf t = .buffer := by
  rw [(conversionOf_suits table t).buffer]
  cases table.conversionOf t <;> decide

end Bindgen.Resolve
