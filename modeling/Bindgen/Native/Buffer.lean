import Bindgen.Wire.Binary
import Bindgen.Wire.Fault

/-!
# Buffers

A `Buffer` is what crosses the boundary in place of text, bytes and encoded values: a capacity and a length
in 32 bits, and memory unless the pointer is null. `Buffer.check` accepts the sound ones, `Buffer.read` takes
the contents out. `Buffer.borrowed` is how bytes are lent to the native side; a `Deviation` says how a buffer
differs from that.
-/

namespace Bindgen.Native

open Wire

/-- A buffer record. The lengths are kept in 32 bits with sign. -/
structure Buffer where
  capacity : Int
  len : Int
  /-- What the pointer points at, with zeros after it; nothing if it is null. -/
  memory : Option (List UInt8)
  deriving DecidableEq, Repr

/-- The first bytes of a memory, with zeros after its end. -/
def firstBytes : Nat → List UInt8 → List UInt8
  | 0, _ => []
  | n + 1, [] => 0 :: firstBytes n []
  | n + 1, b :: bs => b :: firstBytes n bs

namespace Buffer

/-- The buffer that lends bytes. -/
def borrowed (bytes : List UInt8) : Buffer :=
  if bytes.isEmpty then ⟨0, 0, none⟩ else ⟨wrap32 bytes.length, wrap32 bytes.length, some bytes⟩

/-- Whether a buffer is sound: the length is between 0 and the capacity, and there is memory just when the
capacity is positive. -/
def check (b : Buffer) : Except Fault Unit :=
  if b.capacity < 0 ∨ b.len < 0 ∨ b.capacity < b.len then
    .error (.internal (.invalidLengths b.capacity b.len b.memory.isSome))
  else if b.memory.isSome ≠ decide (0 < b.capacity) then
    .error (.internal (.dataMismatch b.capacity b.len b.memory.isSome))
  else .ok ()

/-- The contents of a buffer, which has to be sound. -/
def read (b : Buffer) : Except Fault (List UInt8) := do
  b.check
  return firstBytes b.len.toNat (b.memory.getD [])

/-- The bytes within the length, if the lengths make sense and there is memory. -/
def contents? (b : Buffer) : Option (List UInt8) :=
  if 0 ≤ b.len ∧ b.len ≤ b.capacity then b.memory.map (firstBytes b.len.toNat) else none

end Buffer

/-- Bytes lent for reading. -/
structure View where
  len : Int
  memory : Option (List UInt8)
  deriving DecidableEq, Repr

namespace View

/-- The view of some bytes. -/
def borrowed (bytes : List UInt8) : View :=
  if bytes.isEmpty then ⟨0, none⟩ else ⟨wrap32 bytes.length, some bytes⟩

/-- The bytes of a view. -/
def contents (v : View) : List UInt8 :=
  firstBytes v.len.toNat (v.memory.getD [])

end View

/-- How a buffer differs from one that holds bytes exactly. -/
structure Deviation where
  /-- Bytes held instead. -/
  bytes : Option (List UInt8)
  capacity : Option Int
  len : Option Int
  isNull : Option Bool
  deriving DecidableEq, Repr

namespace Deviation

/-- No difference. -/
def none : Deviation := ⟨.none, .none, .none, .none⟩

/-- The buffer that should hold `bytes`, with its differences. -/
def apply (d : Deviation) (bytes : List UInt8) : Buffer :=
  let bytes := d.bytes.getD bytes
  ⟨wrap32 (d.capacity.getD bytes.length), wrap32 (d.len.getD bytes.length),
    if d.isNull.getD bytes.isEmpty then .none else some bytes⟩

end Deviation

end Bindgen.Native
