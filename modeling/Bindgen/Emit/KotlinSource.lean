import Bindgen.Boundary.Layout
import Bindgen.Emit.CallPlan
import Bindgen.Emit.Converted
import Bindgen.Emit.KotlinSupport
import Bindgen.Identifier.Case
import Bindgen.Identifier.Reserved

/-!
# The Kotlin source

One file with everything: the boundary structs, the interface of the native library, support code, and for
the model a class per record, enum, error and object, a function per function, and a converter per type.
-/

namespace Bindgen.Emit.KotlinSource

open Interface Boundary Resolve Identifier

/-! ## Types and converters -/

/-- How a primitive is handled. -/
structure PrimCode where
  type : String
  /-- Reads it from the byte buffer `buf`. -/
  getter : String
  /-- Writes `value` to the stream `out`. -/
  writer : String
  /-- Turns it into what the native interface takes. -/
  toNative : String
  /-- Turns it back. -/
  ofNative : String

/-- The code for a primitive. -/
def primCode : Prim → PrimCode
  | .i8 => ⟨"Byte", "buf.get()", "out.writeByte(value.toInt())", "", ""⟩
  | .u8 => ⟨"UByte", "buf.get().toUByte()", "out.writeByte(value.toInt())", ".toByte()", ".toUByte()"⟩
  | .i16 => ⟨"Short", "buf.getShort()", "out.writeShort(value.toInt())", "", ""⟩
  | .u16 =>
    ⟨"UShort", "buf.getShort().toUShort()", "out.writeShort(value.toInt())", ".toShort()", ".toUShort()"⟩
  | .i32 => ⟨"Int", "buf.getInt()", "out.writeInt(value)", "", ""⟩
  | .u32 => ⟨"UInt", "buf.getInt().toUInt()", "out.writeInt(value.toInt())", ".toInt()", ".toUInt()"⟩
  | .i64 => ⟨"Long", "buf.getLong()", "out.writeLong(value)", "", ""⟩
  | .u64 =>
    ⟨"ULong", "buf.getLong().toULong()", "out.writeLong(value.toLong())", ".toLong()", ".toULong()"⟩
  | .f32 => ⟨"Float", "buf.getFloat()", "out.writeFloat(value)", "", ""⟩
  | .f64 => ⟨"Double", "buf.getDouble()", "out.writeDouble(value)", "", ""⟩
  | .bool => ⟨"Boolean", "liftBoolean(buf.get())", "out.writeByte(if (value) 1 else 0)", "", ""⟩

/-- The Kotlin type of a type. -/
def typeName : Ty → String
  | .prim p => (primCode p).type
  | .string => "String"
  | .bytes => "ByteArray"
  | .optional t => typeName t ++ "?"
  | .sequence t => "List<" ++ typeName t ++ ">"
  | .map k v => "Map<" ++ typeName k ++ ", " ++ typeName v ++ ">"
  | .box t => typeName t
  | .named n => n

/-- The Kotlin type of a value that may be absent. -/
def absentType (t : Ty) : String :=
  let name := typeName t
  if name.endsWith "?" then name else name ++ "?"

/-- The name of the converter of a type; a box has the converter of what is in it. -/
def converter : Ty → String
  | .box t => converter t
  | t => "FfiConverter" ++ t.canonical

/-- The name of a field or parameter. -/
def memberName (name : String) : String :=
  escapeKotlin (camel name)

/-- The declaration of a field or parameter. -/
def declare (name : String) (t : Ty) : String :=
  memberName name ++ ": " ++ typeName t

/-- The declarations of parameters. -/
def declareParams (params : List Param) : String :=
  ", ".intercalate (params.map fun p => declare p.name p.type)

/-- The converter of a type, from the bodies of its two functions and what it has besides. -/
def converterObject (t : Ty) (type : String) (read write : List Code) (extra : List Code) : List Code :=
  braced (KotlinSupport.converterHead t type)
    (braced s!"override fun read(buf: ByteBuffer): {type}" read ++ emptyLine ++
     braced s!"override fun write(value: {type}, out: DataOutputStream)" write ++
     (if extra.isEmpty then [] else emptyLine ++ extra)) ++ emptyLine

/-- The converters of primitives, text and bytes. -/
def builtinConverters : List Code :=
  Prim.all.flatMap (fun p =>
    let code := primCode p
    converterObject (.prim p) code.type ["return " ++ code.getter] [code.writer] []) ++
  KotlinSupport.stringConverter ++ emptyLine ++ KotlinSupport.bytesConverter ++ emptyLine

/-- Reads every field. -/
def readFields (fields : List Field) : List Code :=
  fields.map fun f => .converter f.type ++ ".read(buf)"

/-- The field of `value` that is written. -/
def fieldOf (f : Field) : String :=
  "value." ++ memberName f.name

/-- The field of an error, which may not be set unless it is optional anyway. -/
def setFieldOf (f : Field) : String :=
  match f.type with
  | .optional _ => fieldOf f
  | _ => "(" ++ fieldOf f ++ " ?: throw IllegalArgumentException(\"" ++ f.name ++ " is not set\"))"

/-- Writes every field. -/
def writeFields (attr : Field → String) (fields : List Field) : List Code :=
  fields.map fun f => .converter f.type ++ ".write(" ++ attr f ++ ", out)"

/-! ## Structs and the library interface -/

/-- Type and initial value of a field of a struct. -/
def structFieldType : FieldKind → String × String
  | .scalar .i8 => ("Byte", "0")
  | .scalar .i16 => ("Short", "0")
  | .scalar .i32 => ("Int", "0")
  | .scalar .i64 => ("Long", "0")
  | .scalar .ptr => ("Pointer?", "null")
  | .struct n => (n.text ++ ".ByValue", n.text ++ ".ByValue()")

/-- The declaration of a field of a struct. -/
def structFieldLine (f : StructField) : String :=
  let (type, initial) := structFieldType f.kind
  s!"@JvmField var {f.name}: {type} = {initial}"

/-- The class of a struct. -/
def structLines (n : StructName) : List Code :=
  let order := ", ".intercalate (n.fields.map fun f => "\"" ++ f.name ++ "\"")
  texts ["@Structure.FieldOrder(" ++ order ++ ")"] ++
  braced s!"open class {n.text} : Structure()"
    (texts (n.fields.map structFieldLine ++
      ["",
       s!"class ByValue : {n.text}(), Structure.ByValue",
       s!"class ByReference : {n.text}(), Structure.ByReference"])) ++ emptyLine

/-- The classes of all structs. -/
def structsLines : List Code :=
  texts ["// Boundary structs, layout-compatible with the C header", ""] ++ StructName.all.flatMap structLines

/-- The name of the interface of the native library. -/
def libraryInterface (ns : String) : String :=
  "_" ++ pascal ns ++ "Lib"

/-- The declaration of a symbol. -/
def prototype (s : Surface) (f : Signature) : Except Failure String := do
  let params ← f.arguments.mapM fun a =>
    return escapeKotlin a.name ++ ": " ++ (← s.spell .kotlin a.shape)
  let returns ← s.spellResult .kotlin "Unit" f.returns
  return "fun " ++ f.name ++ "(" ++ ", ".intercalate params ++ "): " ++ returns

/-- The interface of the native library. -/
def libraryLines (s : Surface) : Except Failure (List Code) := do
  let lib := libraryInterface s.ns
  let prototypes ← s.symbols.mapM (prototype s)
  return braced s!"internal interface {lib} : Library"
    (braced "companion object"
       (braced s!"internal val INSTANCE: {lib} by lazy"
         [s!"Native.load(\"{s.library}\", {lib}::class.java)"]) ++
     emptyLine ++ texts prototypes) ++ emptyLine

/-! ## Records, enums and errors -/

/-- The class and the converter of a record. -/
def recordLines (r : Record) : List Code :=
  texts (if r.fields.isEmpty then [s!"class {r.name}", ""]
    else [s!"data class {r.name}("] ++
      (r.fields.map fun f => "    val " ++ declare f.name f.type ++ ",") ++ [")", ""]) ++
  converterObject (.named r.name) r.name
    ["return " ++ r.name ++ "(" ++ Code.join ", " (readFields r.fields) ++ ")"]
    (writeFields fieldOf r.fields) []

/-- The class and the converter of an enum without fields. -/
def flatLines (e : Choice) : List Code :=
  let members := ", ".intercalate (e.variants.map (upperSnake ·.name))
  braced s!"enum class {e.name}" [members ++ ";"] ++ emptyLine ++
  converterObject (.named e.name) e.name
    ["val index = buf.getInt()",
     s!"return {e.name}.values().getOrNull(index - {firstVariant})",
     s!"    ?: throw InternalException(\"invalid {e.name} variant index $index\")"]
    [s!"out.writeInt(value.ordinal + {firstVariant})"] []

/-- Reads a value with variants; `make` is the expression for a variant. -/
def variantReads (e : Choice) (make : String → Variant → Code) : List Code :=
  braced "return when (val index = buf.getInt())"
    ((numbered e.variants).map (fun (i, v) =>
        toString i ++ " -> " ++ make (e.name ++ "." ++ pascal v.name) v) ++
     texts ["else -> throw InternalException(\"invalid " ++ e.name ++ " variant index $index\")"])

/-- Writes a value with variants; `attr` is the expression for a field, `otherwise` what is done with a
value of no variant. -/
def variantWrites (e : Choice) (attr : Field → String) (otherwise : List Code) : List Code :=
  braced "when (value)"
    ((numbered e.variants).flatMap (fun (i, v) =>
      braced ("is " ++ e.name ++ "." ++ pascal v.name ++ " ->")
        (s!"out.writeInt({i})" :: writeFields attr v.fields)) ++ otherwise)

/-- A variant of an enum. -/
def variantLine (owner : String) (v : Variant) : String :=
  if v.fields.isEmpty then s!"object {pascal v.name} : {owner}()"
  else
    let params := ", ".intercalate (v.fields.map fun f => "val " ++ declare f.name f.type)
    s!"data class {pascal v.name}({params}) : {owner}()"

/-- The expression that makes a variant of an enum. -/
def makeVariant (name : String) (v : Variant) : Code :=
  if v.fields.isEmpty then name
  else name ++ "(" ++ Code.join ", " (readFields v.fields) ++ ")"

/-- The class and the converter of an enum. -/
def enumLines (e : Choice) : List Code :=
  if e.isFlat then flatLines e
  else
    braced s!"sealed class {e.name}" (texts (e.variants.map (variantLine e.name))) ++ emptyLine ++
    converterObject (.named e.name) e.name
      (variantReads e makeVariant) (variantWrites e fieldOf []) []

/-- A variant of an error. -/
def errorVariantLine (owner : String) (code : Nat) (v : Variant) : String :=
  let fields := v.fields.map fun f => "val " ++ memberName f.name ++ ": " ++ absentType f.type ++ " = null"
  "class " ++ pascal v.name ++ "(" ++ ", ".intercalate ("message: String = \"\"" :: fields) ++ ") : " ++
    owner ++ "(" ++ toString code ++ ", message)"

/-- The code of a variant of an error, with what is thrown for it. -/
def liftLine (code : Nat) (v : Variant) : String :=
  toString code ++ " -> " ++ pascal v.name ++ "(message)"

/-- The expression that makes a variant of an error. -/
def makeError (name : String) (v : Variant) : Code :=
  let reads := v.fields.map fun f => memberName f.name ++ " = " ++ Code.converter f.type ++ ".read(buf)"
  name ++ "(" ++ Code.join ", " reads ++ ")"

/-- The exceptions and the converter of an error. -/
def errorLines (e : Choice) : List Code :=
  braced s!"open class {e.name}(code: Int, message: String) : NativeException(code, message)"
    (texts ((numbered e.variants).map fun (i, v) => errorVariantLine e.name i v) ++ emptyLine ++
     braced s!"companion object : ErrorHandler<{e.name}>"
       (braced s!"override fun lift(code: Int, message: String): {e.name} = when (code)"
         (texts ((numbered e.variants).map (fun (i, v) => liftLine i v) ++
           ["else -> " ++ e.name ++ "(code, message)"])))) ++ emptyLine ++
  converterObject (.named e.name) e.name
    (variantReads e makeError)
    (variantWrites e setFieldOf
      ["else -> throw IllegalArgumentException(\"" ++ e.name ++
        " code $\x7bvalue.code\x7d has no variant\")"]) []

/-! ## Calls -/

/-- The local of an argument. -/
def localName (name : String) : String := "lowered" ++ pascal name

/-- The plan of the call behind a symbol. -/
def planOf (s : Surface) (symbol : String) (c : Callable) : CallPlan :=
  .ofCallable s.table localName symbol c

/-- The code for the primitive inside boxes. -/
def scalarCode : Ty → Option PrimCode
  | .box t => scalarCode t
  | .prim p => some (primCode p)
  | _ => none

/-- The expression that lowers a value of type `t`. -/
def lowerExpr (table : Table) (t : Ty) (value : String) : Code :=
  match table.conversionOf t with
  | .direct => value ++ ((scalarCode t).map (·.toNative)).getD ""
  | .boolByte => "lowerBoolean(" ++ value ++ ")"
  | .handle => .converter t ++ ".lower(" ++ value ++ ")"
  | .rawBuffer | .serialized => "lowerBorrowed(" ++ .converter t ++ ", " ++ value ++ ")"

/-- The expression that lifts a value of type `t`. -/
def liftExpr (table : Table) (t : Ty) (value : Code) : Code :=
  match table.conversionOf t with
  | .direct =>
    let suffix := ((scalarCode t).map (·.ofNative)).getD ""
    if suffix == "" then value else "(" ++ value ++ ")" ++ suffix
  | .boolByte => "liftBoolean(" ++ value ++ ")"
  | .handle => .converter t ++ ".lift(" ++ value ++ ")"
  | .rawBuffer | .serialized => "liftBuffer(" ++ .converter t ++ ", " ++ value ++ ")"

/-- The expression lowered in a slot. -/
def slotExpr (table : Table) (slot : Slot) : Code :=
  match slot.origin with
  | .receiver => "requireHandle()"
  | .param p =>
    let value := memberName p.name
    if slot.owned then "lowerOwned(" ++ .converter p.type ++ ", " ++ value ++ ")"
    else lowerExpr table p.type value

/-- The native call with lowered arguments. -/
def invoke (lib : String) (plan : CallPlan) (args : List Code) : Code :=
  let target := lib ++ ".INSTANCE." ++ plan.symbol
  match plan.error with
  | some e => "callWithError(" ++ e ++ ") \x7b _status -> " ++ target ++ "(" ++
      Code.join ", " (args ++ texts ["_status"]) ++ ") \x7d"
  | none => target ++ "(" ++ Code.join ", " args ++ ")"

/-- The statements that bind the consumed buffers. -/
def bindOwned (table : Table) (owned : List Slot) : List Code :=
  match owned with
  | [s] => ["val " ++ s.target ++ " = " ++ slotExpr table s]
  | owned =>
    ["val owned = lowerOwnedAll(" ++
      Code.join ", " (owned.map fun s => "\x7b " ++ slotExpr table s ++ " \x7d") ++ ")"] ++
    texts (owned.mapIdx fun i s => "val " ++ s.target ++ " = owned[" ++ toString i ++ "]")

/-- The native call with everything lowered before it. -/
def callExpr (s : Surface) (plan : CallPlan) : Code :=
  let lib := libraryInterface s.ns
  if plan.inPlace then
    invoke lib plan (plan.slots.map fun x => slotExpr s.table (plan.inPlaceSlot x))
  else
    Code.join "\n" (braced "run"
      ((plan.plain.map fun x => "val " ++ x.target ++ " = " ++ slotExpr s.table x) ++
       bindOwned s.table plan.owned ++ [invoke lib plan (plan.slots.map (·.target))]))

/-- The statement that calls, and returns what comes back if there is a declared result. -/
def returnStatement (s : Surface) (plan : CallPlan) (returns : Option Ty) : Code :=
  match returns with
  | none => callExpr s plan
  | some t => "return " ++ liftExpr s.table t (callExpr s plan)

/-- The declaration of a result. -/
def returnType : Option Ty → String
  | none => ""
  | some t => ": " ++ typeName t

/-- A function with its body. -/
def functionLines (s : Surface) (symbol : String) (c : Callable) : List Code :=
  ["fun " ++ memberName c.name ++ "(" ++ declareParams c.params ++ ")" ++ returnType c.returns ++ " \x7b",
   .moved 4 (returnStatement s (planOf s symbol c) c.returns),
   "\x7d"]

/-! ## Objects -/

/-- The callables of an object of one kind, with their symbols. -/
def membersOf (s : Surface) (o : Object) (keep : Callable → Bool) : List (String × Callable) :=
  (s.objectFunctions o).filterMap fun f => (f.source.filter keep).map (f.name, ·)

/-- The primary constructor, as it stands in its class. -/
def primaryLines (s : Surface) (symbol : String) (c : Callable) : List Code :=
  [.moved 4 ("constructor(" ++ declareParams c.params ++ ") : this(AtomicLong(checkHandle(" ++
    callExpr s (planOf s symbol c) ++ ")))"), ""]

/-- A constructor with a name of its own. -/
def alternateLines (s : Surface) (o : Object) (symbol : String) (c : Callable) : List Code :=
  ["fun " ++ memberName c.name ++ "(" ++ declareParams c.params ++ "): " ++ o.name ++ " =",
   .moved 4 (o.name ++ "(AtomicLong(checkHandle(" ++ callExpr s (planOf s symbol c) ++ ")))")]

/-- How the handle of an object is used and released. -/
def lifecycleLines (s : Surface) (o : Object) : List Code :=
  let lib := libraryInterface s.ns
  braced "internal fun requireHandle(): Long"
    ["val handle = this.handle.get()",
     s!"if (handle == 0L) throw IllegalStateException(\"{o.name} has already been closed\")",
     "return handle"] ++ emptyLine ++
  braced "override fun close()"
    ["val handle = this.handle.getAndSet(0L)",
     s!"if (handle != 0L) {lib}.INSTANCE.{s.releaseSymbol o}(handle)"]

/-- The class of an object. -/
def classLines (s : Surface) (o : Object) : List Code :=
  let alternates := membersOf s o fun c => c.kind = .constructor && !c.isPrimary
  texts [s!"class {o.name} internal constructor(private val handle: AtomicLong) : AutoCloseable \x7b"] ++
  (membersOf s o (·.isPrimary)).flatMap (fun (symbol, c) => primaryLines s symbol c) ++
  indent 4 (lifecycleLines s o ++
    (membersOf s o (·.kind != .constructor)).flatMap (fun (symbol, c) =>
      emptyLine ++ functionLines s symbol c) ++
    (if alternates.isEmpty then []
     else emptyLine ++ braced "companion object"
       (alternates.flatMap fun (symbol, c) => alternateLines s o symbol c))) ++ texts ["\x7d", ""]

/-- The class and the converter of an object. -/
def objectLines (s : Surface) (o : Object) : List Code :=
  classLines s o ++
  converterObject (.named o.name) o.name
    ["return lift(buf.getLong())"] ["out.writeLong(lower(value))"]
    [s!"fun lower(value: {o.name}): Long = value.requireHandle()", "",
     s!"fun lift(handle: Long): {o.name} = {o.name}(AtomicLong(checkHandle(handle)))"]

/-! ## Composite types -/

/-- The converter of an optional. -/
def optionalConverter (t inner : Ty) : List Code :=
  converterObject t (typeName t)
    (braced "return when (val tag = buf.get().toInt())"
      [s!"{absentTag} -> null",
       toString presentTag ++ " -> " ++ .converter inner ++ ".read(buf)",
       "else -> throw InternalException(\"invalid optional tag $tag\")"])
    (chained
      [("if (value == null)", [s!"out.writeByte({absentTag})"]),
       ("else", [s!"out.writeByte({presentTag})", .converter inner ++ ".write(value, out)"])]) []

/-- The converter of a sequence. -/
def sequenceConverter (t inner : Ty) : List Code :=
  converterObject t (typeName t)
    ["val count = buf.getInt()",
     "if (count < 0) throw InternalException(\"negative sequence length $count\")",
     "return List(count) \x7b " ++ .converter inner ++ ".read(buf) \x7d"]
    ["out.writeInt(value.size)",
     "value.forEach \x7b " ++ .converter inner ++ ".write(it, out) \x7d"] []

/-- The converter of a map. -/
def mapConverter (t key value : Ty) : List Code :=
  converterObject t (typeName t)
    (texts ["val count = buf.getInt()",
      "if (count < 0) throw InternalException(\"negative map length $count\")",
      s!"val result = LinkedHashMap<{typeName key}, {typeName value}>(count)"] ++
     braced "repeat(count)"
       ["val key = " ++ .converter key ++ ".read(buf)", "result[key] = " ++ .converter value ++ ".read(buf)"] ++
     texts ["return result"])
    (["out.writeInt(value.size)", "value.forEach \x7b (k, v) ->",
      "    " ++ .converter key ++ ".write(k, out)", "    " ++ .converter value ++ ".write(v, out)", "\x7d"]) []

/-- The converter of a composite type. -/
def compositeLines (t : Ty) : List Code :=
  match t with
  | .optional inner => optionalConverter t inner
  | .sequence inner => sequenceConverter t inner
  | .map key value => mapConverter t key value
  | _ => []

/-- What is declared for a definition, with its converter, or for a composite. -/
def convertedLines (s : Surface) : Converted → List Code
  | .definition (.record r) => recordLines r
  | .definition (.enum e) => enumLines e
  | .definition (.error e) => errorLines e
  | .definition (.object o) => objectLines s o
  | .composite t => compositeLines t

/-! ## The file -/

/-- The name of the package. -/
def packageName (s : Surface) : Except Failure String :=
  s.textOption .kotlin "package_name" ("ffigen." ++ s.ns)

/-- The lines of the source. -/
def sourceLines (s : Surface) (package : String) : Except Failure (List Code) := do
  let lib := libraryInterface s.ns ++ ".INSTANCE"
  let library ← libraryLines s
  return texts (["// " ++ notice, "",
      "@file:Suppress(\"NAME_SHADOWING\", \"unused\", \"ClassName\", \"FunctionName\")", "",
      "package " ++ package, ""] ++ KotlinSupport.imports) ++ emptyLine ++ structsLines ++ library ++
    KotlinSupport.functions lib (bufferFromBytesName s.ns) (bufferFreeName s.ns) ++
    builtinConverters ++
    (Converted.all s.model).flatMap (convertedLines s) ++
    s.functions.flatMap fun f => match f.source with
      | none => []
      | some c => functionLines s f.name c ++ emptyLine

/-- The text of the source. -/
def source (s : Surface) (package : String) : Except Failure String := do
  return fileText converter (← sourceLines s package)

/-- The source, at the path of its package. -/
def file (s : Surface) : Except Failure (String × String) := do
  let package ← packageName s
  return ("/".intercalate (Text.split '.' package) ++ "/" ++ s.ns ++ ".kt", ← source s package)

end Bindgen.Emit.KotlinSource
