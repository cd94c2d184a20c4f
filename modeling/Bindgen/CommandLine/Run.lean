import Bindgen.CommandLine.Arguments
import Bindgen.Generation.Run
import Bindgen.Interface.Decode

/-!
# Runs from the command line

`run` does what the arguments ask for in a file tree: it reads the settings and the model, and writes the
generated files. What it reports are `LogLine`s, of which those below the level asked for are left out.
Arguments and paths are proper texts here, and files are UTF-8.
-/

namespace Bindgen.CommandLine

open Config Files Interface Emit

/-- How important a report is. -/
inductive Level where
  | debug
  | info
  | warning
  | error
  deriving DecidableEq, Repr

namespace Level

/-- The word for a level. -/
def text : Level → String
  | debug => "DEBUG"
  | info => "INFO"
  | warning => "WARNING"
  | error => "ERROR"

/-- The rank of a level, the least important one first. -/
def rank : Level → Nat
  | debug => 0
  | info => 1
  | warning => 2
  | error => 3

end Level

/-- A report. -/
structure LogLine where
  level : Level
  /-- The part of the program that reports. -/
  logger : String
  message : String
  deriving DecidableEq, Repr

/-- A report as text. -/
def LogLine.text (l : LogLine) : String :=
  l.level.text ++ " " ++ l.logger ++ ": " ++ l.message

/-- The lines that a report takes. -/
def LogLine.lines (l : LogLine) : List String :=
  Text.lines (l.text ++ "\n")

/-- The report of an event. -/
def eventLine : Event → LogLine
  | .derived s =>
    let shapes := Text.quotedList (s.arguments.map (·.shape.text))
    let returns := (s.returns.map (·.text)).getD "void"
    ⟨.debug, "ffigen.deriver", s!"derived {s.name}{shapes} -> {returns}"⟩
  | .rendered b => ⟨.debug, "ffigen.generator", s!"rendered {b.text} backend"⟩
  | .unchanged path => ⟨.debug, "ffigen.generator", s!"Unchanged: {path.text}"⟩
  | .generated path => ⟨.info, "ffigen.generator", s!"Generated: {path.text}"⟩

/-- The report of an error. -/
def errorLine (message : String) : LogLine := ⟨.error, "ffigen.cli", message⟩

/-- The report of a run that succeeded. -/
def completedLine : LogLine := ⟨.info, "ffigen.cli", "Generation completed"⟩

/-- How a run ends. -/
inductive Ending where
  /-- It does not begin; the exit code is 0 for help and 2 for wrong arguments. -/
  | stopped (code : Nat)
  /-- It ends with a status, and reports. -/
  | finished (status : Nat) (log : List LogLine)
  /-- It breaks off where no rule says how. -/
  | uncovered
  deriving DecidableEq, Repr

namespace Arguments

/-- The least important level that is reported. -/
def level (a : Arguments) : Level :=
  if a.verbose then .debug else if a.quiet then .warning else .info

/-- The setting that is given on the command line. Nothing given is as good as an empty text. -/
def settingValue (given : Option Given) : Json :=
  match given with
  | some text => .string (text.getD "")
  | none => .null

/-- The directory that is given, which has to be a text. -/
def directoryValue (given : Option Given) : Json :=
  match given with
  | some (some text) => .string text
  | some none => .array []
  | none => .null

/-- The backends that are given, each of which has to be a text. -/
def backendsValue (given : Option (List Given)) : Json :=
  match given with
  | some names => .array (names.map fun name => directoryValue (some name))
  | none => .null

/-- The settings of the file that is named, if one is. -/
def fileSettings (a : Arguments) (files : Tree) : Except Failure Settings :=
  match a.config with
  | none => .ok Settings.default
  | some none => .error .uncovered
  | some (some name) =>
    let path := Path.ofText name
    if path.hasNull then .error .uncovered
    else match files.entry? path with
    | some (.file text) => Settings.ofText text path.text
    | some (.binary _) => .error .uncovered
    | _ => .error (.config (.unreadable path.text))

/-- The settings of a run. -/
def settings (a : Arguments) (files : Tree) : Except Failure Settings := do
  let s ← a.fileSettings files
  let s ← s.overrides [("namespace", settingValue a.ns), ("library_name", settingValue a.library),
    ("backends", backendsValue a.backends), ("out_dir", directoryValue a.outDir)]
  let s ← s.setOption "c" "api_macro" (settingValue a.apiMacro)
  s.setOption "kotlin" "package_name" (settingValue a.kotlinPackage)

end Arguments

/-- What goes wrong before the model is read. -/
inductive Trouble where
  | failure (f : Failure)
  /-- The model file cannot be read. -/
  | unreadable (path : String)
  deriving DecidableEq, Repr

/-- The text of the model file. -/
def modelText (a : Arguments) (files : Tree) : Except Trouble String :=
  let path := Path.ofText (a.model.getD "")
  if path.hasNull then .error (.failure .uncovered)
  else match files.entry? path with
  | some (.file text) => .ok (Text.asRead text)
  | some (.binary _) => .error (.failure .uncovered)
  | _ => .error (.unreadable path.text)

/-- The model and the settings of a run. What is read need not stand for a model. -/
def prepare (a : Arguments) (files : Tree) : Except Trouble (Option Generation) := do
  let settings ← (a.settings files).mapError .failure
  let text ← modelText a files
  let draft ← (Model.draftOfText text).mapError .failure
  return draft.model.map fun m => .ofModel m settings .full

/-- The end of a run that failed after some reports. -/
def failedEnding (log : List LogLine) (f : Failure) : Ending :=
  match f with
  | .uncovered | .blocked _ => .uncovered
  | f => .finished 1 (log ++ [errorLine f.message])

/-- The end of a run with the result of writing, and what is left. -/
def closing : Except Failure (List Path) → Progress → Ending × Tree
  | .ok _, p => (.finished 0 (p.events.map eventLine ++ [completedLine]), p.files)
  | .error f, p => (failedEnding (p.events.map eventLine) f, p.files)

/-- Runs with the arguments given, and reports everything. -/
def execute (a : Arguments) (files : Tree) : Option (Ending × Tree) :=
  match prepare a files with
  | .error (.failure f) => some (failedEnding [] f, files)
  | .error (.unreadable path) => some (.finished 1 [errorLine s!"cannot read {path}"], files)
  | .ok g? => g?.map fun g =>
    let (result, progress) := g.write.run (.start files)
    closing result progress

/-- The ending with the reports that are at least as important as a level. -/
def Ending.atLevel (level : Level) : Ending → Ending
  | finished status log => finished status (log.filter fun l => level.rank ≤ l.level.rank)
  | e => e

/-- Runs with the arguments of a command line in a file tree. What a run does whose model has a name that is no text
is left open. -/
def run (args : List String) (files : Tree) : Option (Ending × Tree) :=
  match Arguments.parse args with
  | .error .help => some (.stopped 0, files)
  | .error .usage => some (.stopped 2, files)
  | .ok a => (execute a files).map fun (ending, left) => (ending.atLevel a.level, left)

end Bindgen.CommandLine
