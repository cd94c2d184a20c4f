import Bindgen.Wire.Instance
import Bindgen.Wire.Scalar
import Bindgen.Wire.Standing

/-!
# The wire encoding of values

For every type there are `check`, which refuses values that are not of it, `write`, which gives the bytes of
a value inside another one, and `read`, which takes a value off a reader. At the top of a buffer text and
bytes stand by themselves, and everything else stands as it does inside (`encode`, `decode`).

Each of the three goes through the type by recursion, and leaves names to a second function, which looks the
definition up and goes through its fields. Definitions can contain each other, so that second recursion is
bounded: `limit` says how many definitions may stand inside each other. A value that is nested more deeply
than that is given up with `Fault.tooDeep`.
-/

namespace Bindgen.Wire

open Interface Resolve

namespace Value

/-- The first variant of whose class a value is. -/
def variantOf? (c : Choice) (v : Value) : Option Nat :=
  v.class?.bind fun cls =>
    if cls.owner = c.name then
      (List.range c.variants.length).find? fun i =>
        cls.variant == some (Schema.variantClass c i)
    else Option.none

/-- The handle of an object, if it has not been closed. -/
def handle : Value → Except Fault Value
  | object _ (some handle) _ => .ok handle
  | object cls Option.none _ => .error (.closed cls.name)
  | _ => .error .unsupported

end Value

/-- Whether a value is an object of the class `name`. -/
def checkObject (s : Schema) (name : String) (v : Value) : Except Fault Unit := do
  s.askObject name
  match v with
  | .object cls _ _ =>
    if cls.isA name then .ok () else .error (.expected (name ++ " instance") cls.name)
  | v => .error (.expected (name ++ " instance") (v.typeName s))

/-- The handle of an object of the class `name`. -/
def lowerObject (s : Schema) (name : String) (v : Value) : Except Fault Value := do
  checkObject s name v
  s.askMember (v.typeName s) handleMember 0
  v.handle

/-- A handle that comes from the native side: anything that counts as true. -/
def checkHandle (handle : Value) : Except Fault Value :=
  if handle.truthy then .ok handle else .error (.internal .nullHandle)

/-- A new object that owns a handle. -/
def newObject (name : String) (v : Value) : Except Fault Value := do
  return .object ⟨name, []⟩ (some (← checkHandle v)) none

/-- A new object that its class makes of a handle. -/
def madeObject (s : Schema) (name : String) (v : Value) : Except Fault Value := do
  let o ← newObject name v
  s.askMember name makeMember 1
  return o

/-- The new object that a converter makes of a handle. -/
def liftObject (s : Schema) (name : String) (v : Value) : Except Fault Value := do
  (s.standing [ownLocal name] name).asked
  madeObject s name v

/-! ## Checking -/

/-- Checks a value of a type; `named` checks one of a definition. -/
def checkTy (s : Schema) (named : String → Value → Except Fault Unit) :
    Ty → Value → Except Fault Unit
  | .prim p, v => (primFormat p).check s v
  | .string, v => match v with
    | .text _ | .broken _ => .ok ()
    | v => .error (.expected "str" (v.typeName s))
  | .bytes, v => match v with
    | .bytes _ | .byteArray _ | .view _ => .ok ()
    | v => .error (.expected "bytes" (v.typeName s))
  | .optional t, v => match v with
    | .none => .ok ()
    | v => checkTy s named t v
  | .sequence t, v => match v.items? with
    | some items => items.forM (checkTy s named t)
    | none => .error (.expected "a sequence" (v.typeName s))
  | .map k w, v => match v with
    | .map entries => entries.forM fun (a, b) => do
      checkTy s named k a
      checkTy s named w b
    | v => .error (.expected "dict" (v.typeName s))
  | .box t, v => checkTy s named t v
  | .named name, v => named name v

/-- Goes on with the value of each field, by its name in the converter of a definition. -/
def eachField (s : Schema) (definition : String) (fields : List Field) (v : Value)
    (f : Ty → Value → Except Fault α) : Except Fault (List α) :=
  fields.mapM fun field => do
    s.find (Emit.converterSource field.type)
    match v.attr? s (Identifier.mangled (Emit.converterClass definition) (fieldName field)) with
    | some w => f field.type w
    | none => throw .unsupported

/-- Checks a value of a definition. -/
def checkNamed (s : Schema) : Nat → String → Value → Except Fault Unit
  | 0, _, _ => .error .tooDeep
  | limit + 1, name, v =>
    let fields (fs : List Field) : Except Fault Unit := do
      let _ ← eachField s name fs v (checkTy s (checkNamed s limit))
    let choice (d : Definition) (c : Choice) : Except Fault Unit := do
      if !c.variants.isEmpty then s.askVariant (checkLocals name) d v
      match v.variantOf? c with
      | some i => fields ((c.variants[i]?.map (·.fields)).getD [])
      | none => .error (.refused c.name v (v.typeName s))
    match s.table.lookup name with
    | some (.record r) => do
      s.askClass (checkLocals name) (.record r) v
      if v.class? = some ⟨r.name, none⟩ then fields r.fields
      else throw (.refused r.name v (v.typeName s))
    | some (.enum c) =>
      if c.isFlat then do
        s.askClass (checkLocals name) (.enum c) v
        match v with
        | .member owner _ => if owner = c.name then return else throw (.refused c.name v owner)
        | v => throw (.refused c.name v (v.typeName s))
      else choice (.enum c) c
    | some (.error c) => choice (.error c) c
    | some (.object o) => checkObject s o.name v
    | none => .error .unsupported

/-! ## Writing -/

/-- The items of some values one after another, with their count in front. -/
def writeItems (write : Value → Except Fault (List UInt8)) (items : List Value) :
    Except Fault (List UInt8) := do
  let count ← PrimFormat.encodeInt .i32 items.length
  return count ++ (← items.mapM write).flatten

/-- Writes a value of a type; `named` writes one of a definition. -/
def writeTy (s : Schema) (named : String → Value → Except Fault (List UInt8)) :
    Ty → Value → Except Fault (List UInt8)
  | .prim p, v => (primFormat p).write s v
  | .string, v => match v with
    | .text t => writeCounted (Text.Utf8.encode t)
    | .broken b => .error (.unencodable b)
    | _ => .error .unsupported
  | .bytes, v => writeBytes s v
  | .optional t, v => match v with
    | .none => .ok [absentTag]
    | v => do return presentTag :: (← writeTy s named t v)
  | .sequence t, v => match v.parts? with
    | some items => writeItems (writeTy s named t) items
    | none => .error (.notIterable (v.typeName s))
  | .map k w, v => match v with
    | .map entries => do
      let count ← PrimFormat.encodeInt .i32 entries.length
      let parts ← entries.mapM fun (a, b) => do
        let key ← writeTy s named k a
        return key ++ (← writeTy s named w b)
      return count ++ parts.flatten
    | v =>
      if v.parts?.isSome && !v.givesOnce then .error .unsupported else .error (.noLength (v.typeName s))
  | .box t, v => writeTy s named t v
  | .named name, v => named name v

/-- Writes the number of a variant. -/
def writeVariant (index : Nat) : Except Fault (List UInt8) :=
  PrimFormat.encodeInt .i32 (index + firstVariant)

/-- Writes a value of a definition. -/
def writeNamed (s : Schema) : Nat → String → Value → Except Fault (List UInt8)
  | 0, _, _ => .error .tooDeep
  | limit + 1, name, v =>
    let fields (fs : List Field) : Except Fault (List UInt8) :=
      List.flatten <$> eachField s name fs v (writeTy s (writeNamed s limit))
    let choice (d : Definition) (c : Choice) : Except Fault (List UInt8) := do
      if !c.variants.isEmpty then s.askVariant (writeLocals name) d v
      match v.variantOf? c with
      | some i => do
        let number ← writeVariant i
        return number ++ (← fields ((c.variants[i]?.map (·.fields)).getD []))
      | none => .error (.refused c.name v (v.typeName s))
    match s.table.lookup name with
    | some (.record r) => fields r.fields
    | some (.enum c) =>
      if c.isFlat then match v.attr? s "value" with
        | some number => (PrimFormat.int .i32).write s number
        | none => .error .unsupported
      else choice (.enum c) c
    | some (.error c) => choice (.error c) c
    | some (.object o) => do
      (PrimFormat.int .u64).write s (← lowerObject s o.name v)
    | none => .error .unsupported

/-! ## Reading -/

/-- Reads a count of items. -/
def readItems (read : Reader → Except Fault (α × Reader)) :
    Nat → Reader → Except Fault (List α × Reader)
  | 0, r => .ok ([], r)
  | count + 1, r => do
    let (x, r) ← read r
    let (xs, r) ← readItems read count r
    return (x :: xs, r)

/-- Reads a count of entries into a map that holds some already. -/
def readEntries (s : Schema) (key value : Reader → Except Fault (Value × Reader)) :
    Nat → List (Value × Value) → Reader → Except Fault (List (Value × Value) × Reader)
  | 0, entries, r => .ok (entries, r)
  | count + 1, entries, r => do
    let (k, r) ← key r
    let (v, r) ← value r
    readEntries s key value count (← Value.insert? s k v entries) r

/-- Reads a value of a type; `named` reads one of a definition. -/
def readTy (s : Schema) (named : String → Reader → Except Fault (Value × Reader)) :
    Ty → Reader → Except Fault (Value × Reader)
  | .prim p, r => (primFormat p).read s r
  | .string, r => do
    let (bytes, r) ← readCounted r
    return (← decodeText bytes, r)
  | .bytes, r => do
    let (bytes, r) ← readCounted r
    return (.bytes bytes, r)
  | .optional t, r => do
    let (mark, r) ← r.int .u8
    if mark = absentTag.toNat then return (.none, r)
    else if mark = presentTag.toNat then readTy s named t r
    else throw (.internal (.invalidOptionalTag mark))
  | .sequence t, r => do
    let (count, r) ← r.int .i32
    if count < 0 then throw (.internal (.negativeSequence count))
    let (items, r) ← readItems (readTy s named t) count.toNat r
    return (.list items, r)
  | .map k w, r => do
    let (count, r) ← r.int .i32
    if count < 0 then throw (.internal (.negativeMap count))
    let (entries, r) ← readEntries s (readTy s named k) (readTy s named w) count.toNat [] r
    return (.map entries, r)
  | .box t, r => readTy s named t r
  | .named name, r => named name r

/-- Reads the values of some fields, each with its name. -/
def readFields (read : Ty → Reader → Except Fault (Value × Reader)) :
    List Field → Reader → Except Fault (List (String × Value) × Reader)
  | [], r => .ok ([], r)
  | f :: fs, r => do
    let (v, r) ← read f.type r
    let (rest, r) ← readFields read fs r
    return ((fieldName f, v) :: rest, r)

/-- Builds a value of the class that stands for a variant. -/
def buildVariant (s : Schema) (c : Choice) (isError : Bool) (index : Nat)
    (given : List (String × Value)) : Except Fault Value :=
  let cls : ClassRef := ⟨c.name, some (Schema.variantClass c index)⟩
  if isError then s.makeFailure cls "" given else s.makeInstance cls given

/-- The error class that is caught where a number stands for no member of an enum. -/
def memberErrorName : String := "ValueError"

/-- What comes of a number that stands for no member of an enum. A definition or function that takes the name
of the error changes that. -/
def memberFault (s : Schema) (c : Choice) (number : Int) : Fault :=
  if memberErrorName ∈ s.functions then .notCatchable
  else match s.table.lookup memberErrorName with
    | none =>
      if Emit.supportName ∈ s.functions then .unsupported else .internal (.invalidVariant c.name number)
    | some (.error _) => .notMember c.name (toString number)
    | some _ => .notCatchable

/-- Reads a value of a definition. -/
def readNamed (s : Schema) : Nat → String → Reader → Except Fault (Value × Reader)
  | 0, _, _ => .error .tooDeep
  | limit + 1, name, r =>
    let fields := readFields fun t r => do
      s.find (Emit.converterSource t)
      readTy s (readNamed s limit) t r
    let own := s.standing (readLocals name) name
    let numbered := s.standing (numberedLocals name) name
    let choice (c : Choice) (isError : Bool) : Except Fault (Value × Reader) := do
      let (number, r) ← r.int .i32
      let index := (number - firstVariant).toNat
      match if number < firstVariant then none else c.variants[index]? with
      | some v => do
        numbered.asked
        let (given, r) ← fields v.fields r
        return (← buildVariant s c isError index given, r)
      | none => do
        s.find Emit.supportName
        throw (.internal (.invalidVariant c.name number))
    match s.table.lookup name with
    | some (.record d) => do
      own.found
      let (given, r) ← fields d.fields r
      own.called
      return (← s.makeInstance ⟨d.name, none⟩ given, r)
    | some (.enum c) =>
      if c.isFlat then do
        let (number, r) ← r.int .i32
        numbered.called
        match Schema.memberPlace? c number with
        | some index => return (.member c.name index, r)
        | none => throw (memberFault s c number)
      else choice c false
    | some (.error c) => choice c true
    | some (.object o) => do
      let (handle, r) ← r.int .u64
      return (← liftObject s o.name (.int handle), r)
    | none => .error .unsupported

/-! ## Converters -/

/-- A type of a schema, with the bound for nesting, whose values are converted. -/
structure Converter where
  schema : Schema
  limit : Nat
  type : Ty

namespace Converter

/-- Refuses a value that is not of the type. -/
def check (c : Converter) (v : Value) : Except Fault Unit :=
  checkTy c.schema (checkNamed c.schema c.limit) c.type v

/-- The bytes of a value inside another one. -/
def write (c : Converter) (v : Value) : Except Fault (List UInt8) :=
  writeTy c.schema (writeNamed c.schema c.limit) c.type v

/-- Takes a value off a reader. -/
def read (c : Converter) (r : Reader) : Except Fault (Value × Reader) :=
  readTy c.schema (readNamed c.schema c.limit) c.type r

/-- The contents of a buffer that holds a value. The check goes through the value before it is written. -/
def encode (c : Converter) (v : Value) : Except Fault (List UInt8) := do
  c.check v
  match c.type.unbox, v with
  | .string, .text t => return Text.Utf8.encode t
  | .bytes, .bytes b => return b
  | .bytes, .byteArray b => return b
  | .bytes, .view w => return w.bytes
  | _, _ => c.write v.used

/-- The value that a buffer with these contents holds. -/
def decode (c : Converter) (bytes : List UInt8) : Except Fault Value :=
  match c.type.unbox with
  | .string => decodeText bytes
  | .bytes => .ok (.bytes bytes)
  | _ => do
    let (v, r) ← c.read (.ofBytes bytes)
    r.finish
    return v

/-- The value that a native call takes where no buffer is needed. -/
def lower (c : Converter) (v : Value) : Except Fault Value :=
  match c.type.unbox with
  | .prim p => (primFormat p).lower c.schema v
  | .named name => match c.schema.table.lookup name with
    | some (.object o) => lowerObject c.schema o.name v
    | _ => .error .unsupported
  | _ => .error .unsupported

/-- The value that a native result stands for where no buffer is needed. -/
def lift (c : Converter) (v : Value) : Except Fault Value :=
  match c.type.unbox with
  | .prim p => (primFormat p).lift c.schema v
  | .named name => match c.schema.table.lookup name with
    | some (.object o) => liftObject c.schema o.name v
    | _ => .error .unsupported
  | _ => .error .unsupported

/-- Reads a count of values. -/
def readMany (c : Converter) : Nat → Reader → Except Fault (List Value × Reader) :=
  readItems c.read

end Converter

end Bindgen.Wire
