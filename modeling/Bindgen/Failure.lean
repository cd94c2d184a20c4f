import Bindgen.Interface.Model
import Bindgen.Interface.TypeExpr
import Bindgen.Text.Points

/-!
# Failures of a generation run

A run stops at the first defect it finds, and `Failure` says which: in the form of the serialized model, in
the model itself, in the configuration, or in what a backend can express. `Failure.message` is the wording.
-/

namespace Bindgen

open Interface Text

/-- A defect in the form of a serialized model. -/
inductive FormatError where
  | invalidJson
  | rootNotObject
  | missing (key context : String)
  | typeNotText (context : String)
  | typeExpr (expr : String) (error : TypeExpr.Error)
  | brokenTypeExpr (expr : Broken)
  deriving DecidableEq, Repr

/-- Whether a code point has no place in a type expression. -/
def TypeExpr.isForeign (p : Point) : Bool :=
  p.char?.all fun c => !isWordChar c && !isBlank c && (TypeExpr.mark? c).isNone

/-- The wording of a defect of form. In a broken type expression there is at least a surrogate out of place. -/
def FormatError.message : FormatError → String
  | invalidJson => "invalid model JSON"
  | rootNotObject => "model root must be an object"
  | missing key context => s!"missing '{key}' in {context}"
  | typeNotText context => s!"type of {context} must be a string"
  | typeExpr expr error => error.message expr
  | brokenTypeExpr expr =>
    let found := (expr.points.find? TypeExpr.isForeign).elim "" fun p => String.ofList p.shown
    s!"invalid character '{found}' in type '{expr.shown}'"

/-- A defect in a configuration. -/
inductive ConfigError where
  | unreadable (path : String)
  | invalidSyntax (path : String)
  | generalNotTable (source : String)
  | unknownKeys (source : String) (keys : List String)
  | backendsNotTexts (source : String)
  | bindingNotTable (source : String)
  | notText (source key : String)
  | unknownSettings (names : List String)
  | unknownBackends (names available : List String)
  deriving DecidableEq, Repr

/-- The wording of a defect in a configuration. -/
def ConfigError.message : ConfigError → String
  | unreadable path => s!"cannot read config {path}"
  | invalidSyntax path => s!"invalid config {path}"
  | generalNotTable source => s!"{source}: [ffigen] must be a table"
  | unknownKeys source keys => s!"{source}: unknown key(s) in [ffigen]: " ++ ", ".intercalate keys
  | backendsNotTexts source => s!"{source}: 'backends' must be a list of strings"
  | bindingNotTable source => s!"{source}: [bindings.<backend>] entries must be tables"
  | notText source key => s!"{source}: '{key}' must be a string"
  | unknownSettings names => "unknown setting(s): " ++ ", ".intercalate names
  | unknownBackends names available =>
    "unknown backend(s): " ++ ", ".intercalate names ++
      " (available: " ++ ", ".intercalate available ++ ")"

/-- What stops a generation run. -/
inductive Failure where
  /-- The serialized model or a type expression is malformed. -/
  | format (e : FormatError)
  /-- A name has no definition. An empty context is not mentioned. -/
  | unresolved (name : String) (context : Option String)
  /-- A definition contains itself by value, along the cycle of names. -/
  | recursive (cycle : List String)
  /-- Two definitions share a name. -/
  | duplicateType (name : String)
  /-- Two exported symbols share a name. -/
  | duplicateSymbol (name : String)
  /-- What a callable throws is no error. -/
  | notAnError (name : String) (context : Option String) (kind : DefinitionKind)
  /-- A backend has no spelling for a shape at the boundary. -/
  | emission (backend shape : String)
  | config (e : ConfigError)
  /-- Something in the file tree is in the way of an output. -/
  | blocked (path : String)
  /-- A part of the model or of the settings has a form that no rule covers. -/
  | uncovered
  deriving DecidableEq, Repr

/-- The wording of a failure. -/
def Failure.message : Failure → String
  | format e => e.message
  | unresolved name context =>
    match context with
    | none | some "" => s!"unresolved type '{name}'"
    | some place => s!"unresolved type '{name}' (referenced from {place})"
  | recursive cycle =>
    "recursive type without object or box indirection: " ++ " -> ".intercalate cycle
  | duplicateType name => s!"duplicate type name '{name}'"
  | duplicateSymbol name => s!"duplicate symbol name '{name}'"
  | notAnError name context kind =>
    let place := context.getD "None"
    s!"'{name}' thrown by {place} is a {kind.text}, not an error type"
  | emission backend shape => s!"[{backend}] cannot represent FFI type '{shape}'"
  | config e => e.message
  | blocked _ | uncovered => ""

end Bindgen
