import Bindgen.Config.Toml.Document
import Bindgen.Failure
import Bindgen.Files.Path
import Bindgen.Json.Literal

/-!
# Settings of a run

`Settings` says which backends run, where the files go, and what the backends are told. They come from a
table (`Settings.ofTable`), which a settings file holds and which is checked, and single ones are replaced by
`override` and `setOption`. What replaces them is kept as it is given: whether it makes sense is seen when it
is used.
-/

namespace Bindgen.Config

open Files

/-- The settings of a run. -/
structure Settings where
  /-- The namespace to use in place of the model's. -/
  ns : Option String
  /-- The base name of the native library, or null. -/
  library : Json
  /-- The names of the backends that run. -/
  backends : Json
  outDir : Path
  /-- The options of the backends: a table of tables, by backend and key. -/
  bindings : Json
  deriving Repr

/-- The backends that run unless settings say otherwise. -/
def defaultBackends : List String := ["c", "python", "kotlin"]

namespace Settings

/-- The settings of a run that is told nothing. -/
def default : Settings :=
  ⟨none, .null, .array (defaultBackends.map .string), Path.ofText "generated", .object []⟩

/-- The base name of the native library of a namespace. -/
def libraryFor (s : Settings) (ns : String) : Json :=
  if s.library.truthy then s.library else .string ns

/-- What runs through a value item by item: the items of an array, the characters of a text, the keys of an
object. -/
def itemsOf? : Json → Option (List Json)
  | .array items => some items
  | .string s => some (s.toList.map fun c => .string c.toString)
  | .object members => some (members.map fun (key, _) => .string key)
  | _ => none

/-- The names of the backends that run. Nothing comes of items that are no texts. -/
def backendNames (s : Settings) : Except Failure (List String) :=
  match (itemsOf? s.backends).bind (·.mapM JsonOf.string?) with
  | some names => .ok names
  | none => .error .uncovered

/-- An option of a backend, if it is set. The options have to be a table of tables as far as they are looked
at. -/
def option? (s : Settings) (backend key : String) : Except Failure (Option Json) :=
  match s.bindings with
  | .object tables => match tables.lookup backend with
    | none => .ok none
    | some (.object options) => .ok (options.lookup key)
    | some _ => .error .uncovered
  | _ => .error .uncovered

/-- The keys of the general table. -/
def generalKeys : List String := ["namespace", "library_name", "backends", "out_dir"]

/-- All settings that can be overridden. -/
def settingNames : List String := ["namespace", "library_name", "backends", "out_dir", "bindings"]

/-- Texts in ascending order. -/
def sorted (xs : List String) : List String :=
  xs.mergeSort (fun a b => decide (a ≤ b))

/-- Whether a value is a table of tables. -/
def isTableOfTables : Json → Bool
  | .object members => members.all fun (_, v) => v.members?.isSome
  | _ => false

/-- The texts of a list of texts. -/
def texts? (j : Json) : Option (List String) := do
  (← j.array?).mapM JsonOf.string?

/-- The text under a key of the general table, if it is there. -/
def textUnder (source : String) (general : Json) (key : String) :
    Except Failure (Option String) :=
  match general.get? key with
  | none => .ok none
  | some (.string s) => .ok (some s)
  | some _ => .error (.config (.notText source key))

/-- The settings in a table that was read from `source`: the general ones under `ffigen`, the options of
the backends under `bindings`. -/
def ofTable (data : Json) (source : String) : Except Failure Settings := do
  if data.members?.isNone then throw .uncovered
  let general := (data.get? "ffigen").getD (.object [])
  let some members := general.members? | throw (.config (.generalNotTable source))
  let unknown := (members.map (·.1)).filter (· ∉ generalKeys)
  if !unknown.isEmpty then throw (.config (.unknownKeys source (sorted unknown)))
  let backends ← match general.get? "backends" with
    | none => pure (defaultBackends.map .string)
    | some v => match texts? v with
      | some names => pure (names.map .string)
      | none => throw (.config (.backendsNotTexts source))
  let bindings := (data.get? "bindings").getD (.object [])
  if !isTableOfTables bindings then throw (.config (.bindingNotTable source))
  let ns ← textUnder source general "namespace"
  let library ← textUnder source general "library_name"
  let outDir ← textUnder source general "out_dir"
  return ⟨ns, (library.map .string).getD .null, .array backends,
    Path.ofText (outDir.getD "generated"), bindings⟩

/-- The settings in the text of a settings file that was read from `source`. -/
def ofText (text : String) (source : String) : Except Failure Settings :=
  match Toml.parse text with
  | .ok table => ofTable table source
  | .error .malformed => .error (.config (.invalidSyntax source))
  | .error .tooManyDigits => .error .uncovered

/-- Replaces one setting. -/
def override (s : Settings) : String × Json → Except Failure Settings
  | ("namespace", .string v) => .ok { s with ns := some v }
  | ("library_name", v) => .ok { s with library := v }
  | ("out_dir", .string v) => .ok { s with outDir := Path.ofText v }
  | ("backends", v) => .ok { s with backends := v }
  | ("bindings", v) => .ok { s with bindings := v }
  | _ => .error .uncovered

/-- A name that no setting can have. -/
def reservedName : String := "self"

/-- Replaces every setting that is given a value other than null. -/
def overrides (s : Settings) (values : List (String × Json)) : Except Failure Settings := do
  if values.any (·.1 == reservedName) then throw .uncovered
  let given := values.filter fun (_, v) => match v with
    | .null => false
    | _ => true
  let unknown := (given.map (·.1)).filter (· ∉ settingNames)
  if !unknown.isEmpty then throw (.config (.unknownSettings (sorted unknown)))
  given.foldlM override s

/-- The key and the value of an entry of an option table that is written as an array. -/
def entry? (v : Json) : Option (String × Json) :=
  match itemsOf? v with
  | some [key, value] => key.keyText?.map (·, value)
  | _ => none

/-- The options in a table, which may also be an array of entries. -/
def optionsIn? : Json → Option (List (String × Json))
  | .object options => some options
  | v => do
    let entries ← (← itemsOf? v).mapM entry?
    return entries.foldl (fun acc (key, value) => JsonOf.setMember key value acc) []

/-- The options of a backend changed by `f`; a backend without options gets them at the end. -/
def updateBackend (backend : String) (f : List (String × Json) → List (String × Json)) :
    List (String × List (String × Json)) → List (String × List (String × Json))
  | [] => [(backend, f [])]
  | (name, options) :: rest =>
    if name = backend then (name, f options) :: rest
    else (name, options) :: updateBackend backend f rest

/-- Sets an option of a backend, for which all tables are gone through; null leaves everything as it is. -/
def setOption (s : Settings) (backend key : String) (value : Json) : Except Failure Settings :=
  match value with
  | .null => .ok s
  | v => match s.bindings.members?.bind (·.mapM fun (name, t) => (optionsIn? t).map (name, ·)) with
    | some tables =>
      let tables := updateBackend backend (JsonOf.setMember key v) tables
      .ok { s with bindings := .object (tables.map fun (name, options) => (name, .object options)) }
    | none => .error .uncovered

end Settings

end Bindgen.Config
