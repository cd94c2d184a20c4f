import Bindgen.Text.Digit
import Bindgen.Text.Utf8
import Bindgen.Wire.Shown
import Bindgen.Wire.Stream

/-!
# Scalars on the wire

How numbers, booleans, text and bytes are checked, written and read. A primitive has two more forms: its
value as it is passed to a native call (`Prim.lower`), and what a native result stands for (`Prim.lift`).
-/

namespace Bindgen.Wire

open Interface

/-- What the wire holds for a primitive. -/
inductive PrimFormat where
  | int (f : IntFormat)
  | real (f : FloatFormat)
  /-- One byte, 0 or 1. -/
  | boolean
  deriving DecidableEq, Repr

/-- The format of a primitive. -/
def primFormat : Prim → PrimFormat
  | .i8 => .int ⟨1, true⟩
  | .u8 => .int ⟨1, false⟩
  | .i16 => .int ⟨2, true⟩
  | .u16 => .int ⟨2, false⟩
  | .i32 => .int ⟨4, true⟩
  | .u32 => .int ⟨4, false⟩
  | .i64 => .int ⟨8, true⟩
  | .u64 => .int ⟨8, false⟩
  | .f32 => .real .binary32
  | .f64 => .real .binary64
  | .bool => .boolean

namespace PrimFormat

/-- Whether a value can be passed as a primitive. -/
def check (s : Schema) : PrimFormat → Value → Except Fault Unit
  | int f, .int n => if f.contains n then .ok () else .error (.outOfRange n f.min f.max)
  | int _, v => .error (.expected "int" (v.typeName s))
  | real _, .int _ => .ok ()
  | real _, .real _ => .ok ()
  | real _, v => .error (.expected "float" (v.typeName s))
  | boolean, .bool _ => .ok ()
  | boolean, v => .error (.expected "bool" (v.typeName s))

/-- A character of a numeral in ASCII: digits of any script become digits, white space becomes blanks, and
what else is not ASCII becomes a mark that no numeral has. -/
def plainChar (c : Char) : Char :=
  if c.toNat < 127 then c
  else if Text.isBlank c then ' '
  else match Text.digit? c with
    | some d => Char.ofNat ('0'.toNat + d)
    | none => '?'

/-- The real number that characters write. `shown` is how they are shown if they write none. -/
def realOfChars (cs : List Char) (shown : String) : Except Fault UInt64 :=
  match parseReal? cs with
  | some bits => .ok (UInt64.ofNat bits)
  | none => .error (.notNumeral shown)

/-- The characters with the numbers that bytes are. -/
def byteChars (b : List UInt8) : List Char :=
  b.map fun x => Char.ofNat x.toNat

/-- The real number that a value stands for. -/
def toReal (s : Schema) : Value → Except Fault UInt64
  | .real bits => .ok bits
  | .int n => match ofInt? n with
    | some bits => .ok (UInt64.ofNat bits)
    | none => .error .overflow
  | .bool b => .ok (if b then 0x3FF0000000000000 else 0)
  | .text t => realOfChars (t.toList.map plainChar) (Text.quoted t)
  | .broken b => .error (.notNumeral b.quoted)
  | .bytes b => realOfChars (byteChars b) ((Value.bytes b).shown s)
  | .view w => realOfChars (byteChars w.bytes) ((Value.view w).shown s)
  | .byteArray b => realOfChars (byteChars b) ((Value.byteArray b).shown s)
  | v => .error (.notReal (v.typeName s))

/-- A value that a native call takes for a primitive. -/
def lower (s : Schema) (f : PrimFormat) (v : Value) : Except Fault Value := do
  f.check s v
  match f, v with
  | real _, v => return .real (← toReal s v)
  | boolean, .bool b => return .int (if b then 1 else 0)
  | _, v => return v

/-- The value that a native result stands for. -/
def lift (s : Schema) : PrimFormat → Value → Except Fault Value
  | boolean, v =>
    if v.same (.int 1) then .ok (.bool true)
    else if v.same (.int 0) then .ok (.bool false)
    else .error (.internal (.invalidBoolean (v.shown s)))
  | _, v => .ok v

/-- An integer in a field that may be too narrow for it. -/
def encodeInt (f : IntFormat) (n : Int) : Except Fault (List UInt8) :=
  match f.encode? n with
  | some bytes => .ok bytes
  | none => .error .unpackable

/-- A real number in bytes. -/
def encodeReal (f : FloatFormat) (bits : UInt64) : Except Fault (List UInt8) :=
  if f = .binary32 then
    match narrow? bits.toNat with
    | some bits => .ok (natBytes 4 bits)
    | none => .error .overflow
  else .ok (natBytes 8 bits.toNat)

/-- A primitive on the wire. -/
def write (s : Schema) : PrimFormat → Value → Except Fault (List UInt8)
  | int f, v => match v with
    | .int n => encodeInt f n
    | .bool b => encodeInt f (if b then 1 else 0)
    | _ => .error .unpackable
  | real f, v => do encodeReal f (← toReal s v)
  | boolean, v => match v with
    | .bool b => encodeInt .u8 (if b then 1 else 0)
    | v => .error (.expected "bool" (v.typeName s))

/-- A primitive off the wire. -/
def read (s : Schema) (f : PrimFormat) (r : Reader) : Except Fault (Value × Reader) :=
  match f with
  | int f => do
    let (n, r) ← r.int f
    return (.int n, r)
  | real f => do
    if f = .binary32 then
      let (bytes, r) ← r.bytes 4
      return (.real (UInt64.ofNat (widen (bytesNat bytes))), r)
    else
      let (bytes, r) ← r.bytes 8
      return (.real (UInt64.ofNat (bytesNat bytes)), r)
  | boolean => do
    let (n, r) ← r.int .u8
    return (← lift s boolean (.int n), r)

end PrimFormat

/-- The text of bytes that have to be UTF-8. -/
def decodeText (bytes : List UInt8) : Except Fault Value :=
  match Text.Utf8.decode bytes with
  | some s => .ok (.text s)
  | none => .error (.internal .invalidText)

/-- Bytes with their count in front. -/
def writeCounted (bytes : List UInt8) : Except Fault (List UInt8) := do
  return (← PrimFormat.encodeInt .i32 bytes.length) ++ bytes

/-- The byte that a value among bytes is. -/
def byteOf (s : Schema) : Value → Except Fault UInt8
  | .int n => if 0 ≤ n ∧ n < 256 then .ok (UInt8.ofNat n.toNat) else .error .notByte
  | .bool b => .ok (if b then 1 else 0)
  | v => .error (.notInteger (v.typeName s))

/-- The bytes that a value with a length is made into. -/
def bytesOf (s : Schema) : Value → Except Fault (List UInt8)
  | .bytes b | .byteArray b => .ok b
  | .view w => .ok w.bytes
  | .text _ | .broken _ => .error .notEncoded
  | v => match v.items? with
    | some items => if v.givesOnce then .error (.noLength (v.typeName s)) else items.mapM (byteOf s)
    | none => .error (.noLength (v.typeName s))

/-- A value made into bytes, with its length in front. The length of a view is the count of its numbers. -/
def writeBytes (s : Schema) (v : Value) : Except Fault (List UInt8) := do
  match v with
  | .view w => return (← PrimFormat.encodeInt .i32 w.count) ++ w.bytes
  | v => writeCounted (← bytesOf s v)

/-- Bytes that have their count in front. -/
def readCounted (r : Reader) : Except Fault (List UInt8 × Reader) := do
  let (n, r) ← r.int .i32
  r.bytes n

end Bindgen.Wire
