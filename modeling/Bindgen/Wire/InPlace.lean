import Bindgen.Wire.Stream

/-!
# Streams in place

A stream that is kept moves as it is used. A `Read` is what can be asked of it, and an `Item` is what can be put on it
and what comes of a read. Each use ends in a result or a fault, and the next one goes on from where it has left the
stream.
-/

namespace Bindgen.Wire

/-- What is done to a stream in place: it ends in a result or a fault, and leaves the stream somewhere either way. -/
abbrev InPlace (σ : Type) := ExceptT Fault (StateM σ)

/-- Takes a count of bytes off a stream. -/
def Reader.takeBytes (size : Int) : InPlace Reader (List UInt8) := do
  let (front, r) ← (← get).bytes size
  set r
  return front

/-- Takes an integer off a stream. -/
def Reader.takeInt (f : IntFormat) : InPlace Reader Int := do
  return f.decode (← takeBytes f.width)

/-- Puts bytes on a stream. -/
def Writer.putBytes (b : List UInt8) : InPlace Writer Unit :=
  modify (·.bytes b)

/-- Puts an integer on a stream. -/
def Writer.putInt (f : IntFormat) (n : Int) : InPlace Writer Unit := do
  set (← (← get).int f n)

/-- What can be asked of a stream: a count of bytes, or an integer of a format that has a byte at least, such as
`i32`, `u8` and `u64`. -/
inductive Read where
  | int (f : IntFormat) (hf : 0 < f.width)
  | bytes (size : Int)
  deriving DecidableEq, Repr

/-- What is put on a stream, and what comes of a read. -/
inductive Item where
  | int (f : IntFormat) (hf : 0 < f.width) (n : Int)
  | bytes (b : List UInt8)
  deriving DecidableEq, Repr

/-- Reads from a stream. -/
def Read.perform : Read → InPlace Reader Item
  | int f hf => do return .int f hf (← Reader.takeInt f)
  | bytes size => do return .bytes (← Reader.takeBytes size)

/-- Writes to a stream. -/
def Item.write : Item → InPlace Writer Unit
  | int f _ n => Writer.putInt f n
  | bytes b => Writer.putBytes b

end Bindgen.Wire
