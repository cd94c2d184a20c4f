import Bindgen.Boundary.Support
import Bindgen.Emit.CallPlan
import Bindgen.Emit.Converted
import Bindgen.Emit.Lines
import Bindgen.Identifier.Case
import Bindgen.Identifier.Reserved
import Bindgen.Text.Quoted

/-!
# The Python module

Loads the native library, declares its symbols, and wraps them: a data class per record, an enumeration or
a class with variants per enum, an exception per error, a class per object and a function per function.
Every type that is not primitive has a converter, which checks a value, writes it and reads it back.
-/

namespace Bindgen.Emit.PythonModule

open Interface Boundary Resolve Identifier

/-- The rule above and below the title of a section. -/
def rule : String := "# " ++ String.ofList (List.replicate 62 '═')

/-- The lines that open a section. -/
def sectionTitle (title : String) : List String :=
  [rule, "# " ++ title, rule, ""]

/-! ## Type hints -/

/-- The type hint of a primitive. -/
def primHint : Prim → String
  | .f32 | .f64 => "float"
  | .bool => "bool"
  | _ => "int"

/-- The type hint of a type, without quotes. -/
def bareHint : Ty → String
  | .prim p => primHint p
  | .string => "str"
  | .bytes => "bytes"
  | .optional t => "typing.Optional[" ++ bareHint t ++ "]"
  | .sequence t => "typing.List[" ++ bareHint t ++ "]"
  | .map k v => "typing.Dict[" ++ bareHint k ++ ", " ++ bareHint v ++ "]"
  | .box t => bareHint t
  | .named n => n

/-- Whether a type mentions a definition. -/
def mentionsName : Ty → Bool
  | .named _ => true
  | .optional t | .sequence t | .box t => mentionsName t
  | .map k v => mentionsName k || mentionsName v
  | _ => false

/-- A hint for `t`, in quotes when it mentions a generated class, which may not exist yet. -/
def quoteHint (t : Ty) (hint : String) : String :=
  if mentionsName t then "\"" ++ hint ++ "\"" else hint

/-- The type hint of a type. -/
def hint (t : Ty) : String :=
  quoteHint t (bareHint t)

/-- The type hint of a value that may be absent. -/
def absentHint (t : Ty) : String :=
  match t with
  | .optional _ => hint t
  | _ => quoteHint t ("typing.Optional[" ++ bareHint t ++ "]")

/-- The type hint of a result. -/
def resultHint : Option Ty → String
  | none => "None"
  | some t => hint t

/-- The declaration of a field or parameter. -/
def declare (name : String) (t : Ty) : String :=
  escapePython name ++ ": " ++ hint t

/-- The declarations of parameters. -/
def declareParams (params : List Param) : List String :=
  params.map fun p => declare p.name p.type

/-! ## Wrappers -/

/-- The local of an argument. -/
def localName (name : String) : String := "_" ++ name

/-- The plan of the call behind a symbol. -/
def planOf (s : Surface) (symbol : String) (c : Callable) : CallPlan :=
  .ofCallable s.table localName symbol c

/-- The expression that lowers a value of type `t`. -/
def lowerExpr (table : Table) (t : Ty) (value : String) : Code :=
  if (table.conversionOf t).usesBuffer then "_rt.lower_borrowed(" ++ .converter t ++ ", " ++ value ++ ")"
  else .converter t ++ ".lower(" ++ value ++ ")"

/-- The expression that lifts a value of type `t`. -/
def liftExpr (table : Table) (t : Ty) (value : Code) : Code :=
  if (table.conversionOf t).usesBuffer then "_protocol.lift(" ++ .converter t ++ ", " ++ value ++ ")"
  else .converter t ++ ".lift(" ++ value ++ ")"

/-- The expression lowered in a slot. -/
def slotExpr (table : Table) (slot : Slot) : Code :=
  match slot.origin with
  | .receiver => "self._require_handle()"
  | .param p => lowerExpr table p.type (escapePython p.name)

/-- Converter and value of a consumed buffer. -/
def ownedPair (slot : Slot) : Code :=
  match slot.origin with
  | .receiver => "(self._require_handle())"
  | .param p => "(" ++ .converter p.type ++ ", " ++ escapePython p.name ++ ")"

/-- The statements before a call. -/
def preludeLines (table : Table) (plan : CallPlan) : List Code :=
  if plan.inPlace then []
  else
    let bound := plan.plain.map fun s => s.target ++ " = " ++ slotExpr table s
    match plan.owned with
    | [s] => bound ++ [s.target ++ " = _protocol.lower_owned" ++ ownedPair s]
    | owned => bound ++ [", ".intercalate (owned.map (·.target)) ++ " = _protocol.lower_owned_all(" ++
        Code.join ", " (owned.map ownedPair) ++ ")"]

/-- The native call. -/
def callExpr (table : Table) (plan : CallPlan) : Code :=
  let args : List Code := plan.slots.map fun s =>
    if plan.inPlace then slotExpr table (plan.inPlaceSlot s) else s.target
  let error := plan.error.toList.map ("error=" ++ ·)
  "_protocol.call(" ++ Code.join ", " (texts ["_lib." ++ plan.symbol] ++ args ++ texts error) ++ ")"

/-- The body of a wrapper with a declared result or none. -/
def body (table : Table) (plan : CallPlan) (returns : Option Ty) : List Code :=
  preludeLines table plan ++
    match returns with
    | none => [callExpr table plan]
    | some t => ["return " ++ liftExpr table t (callExpr table plan)]

/-! ## Declarations of symbols -/

/-- The declaration of a symbol. -/
def symbolLines (s : Surface) (f : Signature) : Except Failure (List String) := do
  let returns ← s.spellResult .python "None" f.returns
  let args ← f.arguments.mapM fun a => s.spell .python a.shape
  return ["_lib." ++ f.name ++ ".restype = " ++ returns,
    "_lib." ++ f.name ++ ".argtypes = [" ++ ", ".intercalate args ++ "]", ""]

/-- The declarations of all symbols. -/
def symbolsLines (s : Surface) : Except Failure (List String) := do
  let symbols ← s.symbols.mapM (symbolLines s)
  return sectionTitle "C API Function Declarations" ++ symbols.flatten ++
    ["_protocol = _rt.BufferProtocol(_lib." ++ bufferFromBytesName s.ns ++ ", _lib." ++
      bufferFreeName s.ns ++ ")", "", ""]

/-! ## Records, enums and errors -/

/-- Lines in a section, if there are any definitions for it. -/
def sectionFor (title : String) (xs : List α) (lines : α → List Code) : List Code :=
  if xs.isEmpty then [] else texts (sectionTitle title) ++ xs.flatMap lines

/-- The fields of a data class. -/
def fieldLines (fields : List Field) : List String :=
  if fields.isEmpty then ["    pass"]
  else fields.map fun f => "    " ++ declare f.name f.type

/-- The data class of a record. -/
def recordLines (r : Record) : List String :=
  ["@dataclasses.dataclass", s!"class {r.name}:"] ++ fieldLines r.fields ++ ["", ""]

/-- The attribute of its owner's class under which a variant is found. -/
def variantAttr (owner : String) (v : Variant) : String :=
  owner ++ "." ++ pascal v.name

/-- The class of a variant. -/
def variantClass (owner : String) (v : Variant) : String :=
  "_" ++ owner ++ "_" ++ pascal v.name

/-- The class of a variant of an enum. -/
def variantLines (owner : String) (v : Variant) : List String :=
  ["@dataclasses.dataclass", s!"class {variantClass owner v}({owner}):"] ++ fieldLines v.fields ++
  ["", "", variantAttr owner v ++ " = " ++ variantClass owner v, "", ""]

/-- The class of an enum. -/
def enumLines (e : Choice) : List String :=
  if e.isFlat then
    [s!"class {e.name}(enum.Enum):"] ++
    (numbered e.variants).map (fun (i, v) => s!"    {upperSnake v.name} = {i}") ++
    (if e.variants.isEmpty then ["    pass"] else []) ++ ["", ""]
  else
    [s!"class {e.name}:", s!"    \"\"\"Base class of every {e.name} variant\"\"\"", "", ""] ++
    e.variants.flatMap (variantLines e.name)

/-- The class of a variant of an error. -/
def errorVariantLines (owner : String) (code : Nat) (v : Variant) : List String :=
  let fields := v.fields.map fun f => escapePython f.name ++ ": " ++ absentHint f.type ++ " = None"
  let params := ["message: str = \"\""] ++ (if fields.isEmpty then [] else "*" :: fields)
  [s!"class {variantClass owner v}({owner}):",
   s!"    CODE = {code}",
   "",
   "    def __init__(self, " ++ ", ".intercalate params ++ "):",
   "        super().__init__(self.CODE, message)"] ++
  (v.fields.map fun f => "        self." ++ escapePython f.name ++ " = " ++ escapePython f.name) ++
  ["", "", variantAttr owner v ++ " = " ++ variantClass owner v, "", ""]

/-- The exceptions of an error. -/
def errorLines (e : Choice) : List String :=
  let entries := (numbered e.variants).map fun (i, v) => s!"{i}: {variantAttr e.name v}"
  [s!"class {e.name}(_rt.NativeError):",
   s!"    \"\"\"Failure declared by {e.name}-throwing calls\"\"\"", "", ""] ++
  (numbered e.variants).flatMap (fun (i, v) => errorVariantLines e.name i v) ++
  [e.name ++ "._VARIANTS = \x7b" ++ ", ".intercalate entries ++ "\x7d", "", ""]

/-! ## Objects and functions -/

/-- A constructor of an object. -/
def constructorLines (s : Surface) (o : Object) (symbol : String) (c : Callable) : List Code :=
  let plan := planOf s symbol c
  let call := callExpr s.table plan
  let params := declareParams c.params
  if c.isPrimary then
    texts ["    def __init__(" ++ ", ".intercalate ("self" :: params) ++ "):"] ++
    indent 8 (preludeLines s.table plan) ++
    ["        self._handle = _rt.check_handle(" ++ call ++ ")", ""]
  else
    texts ["    @classmethod",
      "    def " ++ escapePython c.name ++ "(" ++ ", ".intercalate ("cls" :: params) ++ ") -> \"" ++
        o.name ++ "\":"] ++
    indent 8 (preludeLines s.table plan) ++
    ["        return cls._make_instance(_rt.check_handle(" ++ call ++ "))", ""]

/-- A method of an object. -/
def methodLines (s : Surface) (symbol : String) (c : Callable) : List Code :=
  texts ["    def " ++ escapePython c.name ++ "(" ++ ", ".intercalate ("self" :: declareParams c.params) ++
    ") -> " ++ resultHint c.returns ++ ":"] ++
  indent 8 (body s.table (planOf s symbol c) c.returns) ++ texts [""]

/-- A constructor or method, from its symbol. -/
def memberLines (s : Surface) (o : Object) (f : Signature) : List Code :=
  match f.source with
  | none => []
  | some c =>
    if c.kind = .constructor then constructorLines s o f.name c else methodLines s f.name c

/-- The class of an object. -/
def objectLines (s : Surface) (o : Object) : List Code :=
  texts (sectionTitle s!"{o.name} Object" ++
    [s!"class {o.name}(_rt.NativeObject):",
     s!"    \"\"\"Python wrapper for the native {o.name} object\"\"\"", ""]) ++
  (s.objectFunctions o).flatMap (memberLines s o) ++
  texts ["    def _release(self, handle):", "        _lib." ++ s.releaseSymbol o ++ "(handle)", "", ""]

/-- A free function, from its symbol. -/
def functionLines (s : Surface) (f : Signature) : List Code :=
  match f.source with
  | none => []
  | some c =>
    texts ["def " ++ escapePython c.name ++ "(" ++ ", ".intercalate (declareParams c.params) ++ ") -> " ++
      resultHint c.returns ++ ":"] ++
    indent 4 (body s.table (planOf s f.name c) c.returns) ++ texts ["", ""]

/-! ## Converters -/

/-- The instance of the converter of a definition. -/
def converterInstance (name : String) : List Code :=
  texts ["", ""] ++ [Code.converter (.named name) ++ " = " ++ converterClass name ++ "()"] ++ texts ["", ""]

/-- The statement that refuses a value which is no `name`. -/
def refusal (name : String) : String :=
  "raise TypeError(f\"expected " ++ name ++ ", got \x7btype(value).__name__\x7d\")"

/-- Checks every field. -/
def checkFields (fields : List Field) : List Code :=
  fields.map fun f => .converter f.type ++ ".check(value." ++ escapePython f.name ++ ")"

/-- Writes every field. -/
def writeFields (fields : List Field) : List Code :=
  fields.map fun f => .converter f.type ++ ".write(value." ++ escapePython f.name ++ ", stream)"

/-- Reads every field, as named arguments. -/
def readFields (fields : List Field) : Code :=
  .join ", " (fields.map fun f => escapePython f.name ++ "=" ++ .converter f.type ++ ".read(stream)")

/-- The converter of a record. -/
def recordConverter (r : Record) : List Code :=
  texts [s!"class {converterClass r.name}(_rt.Converter):",
    "    def check(self, value):",
    s!"        if not isinstance(value, {r.name}):",
    "            " ++ refusal r.name] ++
  indent 8 (checkFields r.fields) ++
  texts ["", "    def read(self, stream):"] ++
  ["        return " ++ r.name ++ "(" ++ readFields r.fields ++ ")"] ++
  texts ["", "    def write(self, value, stream):"] ++
  indent 8 (if r.fields.isEmpty then texts ["pass"] else writeFields r.fields) ++
  converterInstance r.name

/-- The converter of an enum without fields. -/
def flatConverter (e : Choice) : List Code :=
  texts [s!"class {converterClass e.name}(_rt.Converter):",
    "    def check(self, value):",
    s!"        if not isinstance(value, {e.name}):",
    "            " ++ refusal e.name,
    "",
    "    def read(self, stream):",
    "        index = stream.read_i32()",
    "        try:",
    s!"            return {e.name}(index)",
    "        except ValueError:",
    "            raise _rt.InternalError(f\"invalid " ++ e.name ++
      " variant index \x7bindex\x7d\") from None",
    "",
    "    def write(self, value, stream):",
    "        stream.write_i32(value.value)"] ++
  converterInstance e.name

/-- Checks a value of a variant. -/
def checkVariant (owner : String) (v : Variant) : List Code :=
  texts ["        if isinstance(value, " ++ variantAttr owner v ++ "):"] ++ indent 12 (checkFields v.fields) ++
  texts ["            return"]

/-- Reads a variant with a number. -/
def readVariant (owner : String) (number : Nat) (v : Variant) : List Code :=
  texts ["        if index == " ++ toString number ++ ":"] ++
  ["            return " ++ variantAttr owner v ++ "(" ++ readFields v.fields ++ ")"]

/-- Writes a value of a variant with a number. -/
def writeVariant (owner : String) (number : Nat) (v : Variant) : List Code :=
  texts ["        if isinstance(value, " ++ variantAttr owner v ++ "):",
    "            stream.write_i32(" ++ toString number ++ ")"] ++ indent 12 (writeFields v.fields) ++
  texts ["            return"]

/-- The converter of an error, or of an enum with fields. -/
def variantsConverter (e : Choice) : List Code :=
  texts ["class " ++ converterClass e.name ++ "(_rt.Converter):",
    "    def check(self, value):"] ++
  e.variants.flatMap (checkVariant e.name) ++
  texts ["        " ++ refusal e.name,
    "",
    "    def read(self, stream):",
    "        index = stream.read_i32()"] ++
  (numbered e.variants).flatMap (fun (i, v) => readVariant e.name i v) ++
  texts ["        raise _rt.InternalError(f\"invalid " ++ e.name ++ " variant index \x7bindex\x7d\")",
    "",
    "    def write(self, value, stream):"] ++
  (numbered e.variants).flatMap (fun (i, v) => writeVariant e.name i v) ++
  texts ["        " ++ refusal e.name] ++
  converterInstance e.name

/-- The converter of an enum. -/
def enumConverter (e : Choice) : List Code :=
  if e.isFlat then flatConverter e else variantsConverter e

/-- The converter of an object. -/
def objectConverter (o : Object) : List Code :=
  texts [s!"class {converterClass o.name}(_rt.HandleConverter):",
    "    def object_class(self):",
    s!"        return {o.name}"] ++
  converterInstance o.name

/-- The converter of an optional, sequence or map; a box has none of its own. -/
def compositeConverter (t : Ty) : List Code :=
  let assign (rhs : Code) : List Code := [.converter t ++ " = " ++ rhs]
  match t with
  | .optional inner => assign ("_rt.OptionalConverter(" ++ .converter inner ++ ")")
  | .sequence inner => assign ("_rt.SequenceConverter(" ++ .converter inner ++ ")")
  | .map k v => assign ("_rt.MapConverter(" ++ .converter k ++ ", " ++ .converter v ++ ")")
  | _ => []

/-- The converter of a definition or composite. -/
def converterLines : Converted → List Code
  | .definition (.record r) => recordConverter r
  | .definition (.enum e) => enumConverter e
  | .definition (.error e) => variantsConverter e
  | .definition (.object o) => objectConverter o
  | .composite t => compositeConverter t

/-- All converters. -/
def convertersLines (m : Model) : List Code :=
  texts (sectionTitle "Converters") ++ (Converted.all m).flatMap converterLines ++ texts ["", ""]

/-! ## The module -/

/-- The names that the module exports. -/
def publicNames (m : Model) : List String :=
  m.definitions.map (·.name) ++ m.functions.map (escapePython ·.name)

/-- The lines before the declarations. -/
def preamble (s : Surface) : List String :=
  ["\"\"\"", notice, s!"Python bindings for {s.ns}", "\"\"\"", "",
   "import ctypes", "import dataclasses", "import enum", "import typing", "",
   "from ffigen import runtime as _rt", "",
   "__all__ = " ++ Text.quotedList (publicNames s.model), "", ""] ++
  sectionTitle "Library Loading" ++
  [s!"_lib = _rt.load_library(\"{s.library}\")", ""]

/-- The lines of the module. -/
def moduleLines (s : Surface) : Except Failure (List Code) := do
  let symbols ← symbolsLines s
  return texts (preamble s ++ symbols) ++
    sectionFor "Records" s.model.records (texts <| recordLines ·) ++
    sectionFor "Enums" s.model.enums (texts <| enumLines ·) ++
    sectionFor "Errors" s.model.errors (texts <| errorLines ·) ++
    s.model.objects.flatMap (objectLines s) ++
    convertersLines s.model ++
    sectionFor "Functions" s.functions (functionLines s)

/-- The text of the module. -/
def moduleText (s : Surface) : Except Failure String := do
  return fileText converterExpr (← moduleLines s)

/-- The module, at its path. -/
def file (s : Surface) : Except Failure (String × String) := do
  return (s.ns ++ ".py", ← moduleText s)

end Bindgen.Emit.PythonModule
