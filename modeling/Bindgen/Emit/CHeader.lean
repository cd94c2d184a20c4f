import Bindgen.Boundary.Layout
import Bindgen.Emit.Backend
import Bindgen.Text.Case

/-!
# The C header

Declares the structs of the boundary and every exported symbol. The structs are shared by all generated
headers and guarded against being declared twice; the macro before each prototype marks it as exported.
-/

namespace Bindgen.Emit.CHeader

open Interface Boundary Config

/-- Every occurrence of `old` replaced by `new`, from the left. -/
def replaceAll (old new : List Char) : List Char → List Char
  | [] => []
  | c :: cs =>
    if old.isPrefixOf (c :: cs) ∧ old ≠ [] then new ++ replaceAll old new (cs.drop (old.length - 1))
    else c :: replaceAll old new cs
  termination_by cs => cs.length
  decreasing_by all_goals simp only [List.length_drop, List.length_cons]; omega

/-- The macro of symbols being imported or exported. -/
def apiMacro (s : Surface) : Except Failure String :=
  s.textOption .c "api_macro" (Text.upper s.ns ++ "_API")

/-- The macro that is defined while the library itself is compiled. -/
def exportMacro (api : String) : String :=
  String.ofList (replaceAll "_API".toList "_EXPORTS".toList api.toList)

/-- The lines before the declarations. -/
def preamble (ns api : String) : List String :=
  let guard := Text.upper ns ++ "_H"
  let exports := exportMacro api
  [s!"// {notice}",
   s!"#ifndef {guard}",
   s!"#define {guard}",
   "",
   "#include <stdint.h>",
   "",
   "#ifdef __cplusplus",
   "extern \"C\" \x7b",
   "#endif",
   "",
   "#ifdef _WIN32",
   s!"    #ifdef {exports}",
   s!"        #define {api} __declspec(dllexport)",
   "    #else",
   s!"        #define {api} __declspec(dllimport)",
   "    #endif",
   "#else",
   s!"    #define {api} __attribute__((visibility(\"default\")))",
   "#endif",
   ""]

/-- The lines after the declarations. -/
def postamble (ns : String) : List String :=
  let upper := Text.upper ns
  ["#ifdef __cplusplus",
   "\x7d",
   "#endif",
   "",
   s!"#endif // {upper}_H",
   ""]

/-- The C type of a field. -/
def fieldType (owner : StructName) : FieldKind → String
  | .scalar .i8 => "int8_t"
  | .scalar .i16 => "int16_t"
  | .scalar .i32 => "int32_t"
  | .scalar .i64 => "int64_t"
  | .scalar .ptr => if owner = .byteView then "const uint8_t*" else "uint8_t*"
  | .struct n => n.text

/-- The declaration of a struct. -/
def structLines (n : StructName) : List String :=
  ["typedef struct " ++ n.text ++ " \x7b"] ++
  (n.fields.map fun f => "    " ++ fieldType n f.kind ++ " " ++ f.name ++ ";") ++
  ["\x7d " ++ n.text ++ ";", ""]

/-- The declarations of all structs. -/
def structsLines : List String :=
  ["#ifndef FFIGEN_PROTOCOL_STRUCTS", "#define FFIGEN_PROTOCOL_STRUCTS", ""] ++
  StructName.all.flatMap structLines ++
  ["#endif // FFIGEN_PROTOCOL_STRUCTS", ""]

/-- The prototype of a symbol. -/
def prototype (s : Surface) (api : String) (f : Signature) : Except Failure String := do
  let ret ← s.spellResult .c "void" f.returns
  let params ← f.arguments.mapM fun a => return (← s.spell .c a.shape) ++ " " ++ a.name
  let params := if params.isEmpty then "void" else ", ".intercalate params
  return api ++ " " ++ ret ++ " " ++ f.name ++ "(" ++ params ++ ");"

/-- The text of the header. -/
def header (s : Surface) : Except Failure String := do
  let api ← apiMacro s
  let prototypes ← s.symbols.mapM (prototype s api)
  let gap := if s.symbols.isEmpty then [] else [""]
  return "\n".intercalate
    (preamble s.ns api ++ structsLines ++ prototypes ++ gap ++ postamble s.ns)

/-- The header, at its path. -/
def file (s : Surface) : Except Failure (String × String) := do
  return (s.ns ++ ".h", ← header s)

end Bindgen.Emit.CHeader
