import Bindgen.Derive
import Bindgen.Emit.CHeader
import Bindgen.Emit.KotlinSource
import Bindgen.Emit.PythonModule
import Bindgen.Files.Tree

/-!
# Generation runs

A `Generation` is a model with the settings under which code is generated for it. Its steps build on each
other: `check` looks at every type that the model uses, `derive` gives the exported symbols, `render` the
generated files, and `write` puts those that changed into the file tree. They share a `Progress`, which keeps
the checker from step to step, collects what is reported, and holds the files. A step that fails leaves
behind what it did.

`Model.uses` lists what `check` looks at, in order.
-/

namespace Bindgen

open Interface Boundary Resolve Config Emit Files

/-- Generated files: their paths below the output directory, and their texts. -/
abbrev Outputs := List (String × String)

/-- What a run reports while it goes on. -/
inductive Event where
  /-- A symbol was derived. -/
  | derived (s : Signature)
  /-- A backend has rendered its file. -/
  | rendered (b : Backend)
  /-- A file holds its text already. -/
  | unchanged (path : Path)
  /-- A file was written. -/
  | generated (path : Path)

/-- What the steps of a generation share. -/
structure Progress where
  /-- The checker, once a check has begun. -/
  checker : Option Checker
  /-- What was reported, in order. -/
  events : List Event
  files : Tree

/-- The progress of a generation of which no step was taken. -/
def Progress.start (files : Tree) : Progress := ⟨none, [], files⟩

/-- A step of a generation: it may fail, and leaves its progress behind in any case. -/
abbrev Step := ExceptT Failure (StateM Progress)

namespace Step

/-- A result or failure as a step. -/
def ofExcept (r : Except Failure α) : Step α :=
  match r with
  | .ok a => pure a
  | .error f => throw f

/-- Reports an event. -/
def report (e : Event) : Step Unit :=
  modify fun p => { p with events := p.events ++ [e] }

/-- Keeps a checker for the steps to come. -/
def keep (c : Checker) : Step Unit :=
  modify fun p => { p with checker := some c }

/-- Changes the file tree. The change fails where it gives no tree that is as wanted; what it did is kept. -/
def changeFiles (path : Path) (change : Tree → Tree × Bool) : Step Unit := do
  let (files, done) := change (← get).files
  modify fun p => { p with files }
  if !done then throw (.blocked path.text)

end Step

namespace Interface

/-- Something that a model uses by name or type, with the place where it does. -/
inductive Use where
  /-- A type whose values are stored or passed. -/
  | value (t : Ty) (context : String)
  /-- The name of what a callable throws. -/
  | thrown (name context : String)
  deriving DecidableEq, Repr

/-- What a callable uses: the types of its parameters, its result and what it throws. -/
def Callable.uses (owner : Option Object) (c : Callable) : List Use :=
  let place := c.place owner
  (c.params.map fun p => .value p.type (p.place place)) ++
  (c.returns.toList.map fun t => .value t s!"{place} return") ++
  (c.throws.toList.map fun name => .thrown name place)

/-- What a model uses: every definition, then what the callables use. -/
def Model.uses (m : Model) : List Use :=
  (m.definitions.map fun d => .value (.named d.name) d.name) ++
  m.callables.flatMap fun (owner, c) => c.uses owner

end Interface

/-- Checks one use. -/
def Resolve.Checker.checkUse (c : Checker) : Use → Except Failure Checker
  | .value t context => c.check t (some context)
  | .thrown name context => do
    let _ ← c.table.resolveError name (some context)
    return c

namespace Emit.Backend

/-- The file that a backend generates, with its path. -/
def file : Backend → Surface → Except Failure (String × String)
  | c => CHeader.file
  | python => PythonModule.file
  | kotlin => KotlinSource.file

end Emit.Backend

/-- A model and the settings under which code is generated for it. -/
structure Generation where
  model : Model
  settings : Settings
  spelling : Spelling

namespace Generation

/-- The generation for a model. A namespace in the settings takes the place of the model's. -/
def ofModel (m : Model) (settings : Settings) (spelling : Spelling) : Generation :=
  match settings.ns with
  | none | some "" => ⟨m, settings, spelling⟩
  | some ns => ⟨{ m with ns }, settings, spelling⟩

/-- Checks everything that the model uses, up to the first defect. -/
def check (g : Generation) : Step Checker := do
  let c ← Step.ofExcept (Checker.ofModel g.model)
  Step.keep c
  g.model.uses.foldlM (fun c use => do
    let c ← Step.ofExcept (c.checkUse use)
    Step.keep c
    return c) c

/-- The checker of this generation; the model is checked when there is none yet. -/
def checker (g : Generation) : Step Checker := do
  match (← get).checker with
  | some c => return c
  | none => g.check

/-- The exported symbols of the model. -/
def derive (g : Generation) : Step (List Signature) := do
  let c ← g.checker
  let (symbols, c) ← Step.ofExcept (deriveSymbols c)
  Step.keep c
  let (distinct, repeated) := distinctSymbols [] symbols
  distinct.forM fun s => Step.report (.derived s)
  match repeated with
  | some name => throw (.duplicateSymbol name)
  | none => return symbols

/-- The backends that the settings name, all of which have to be known. -/
def backends (g : Generation) : Except Failure (List Backend) := do
  let names ← g.settings.backendNames
  match names.filter fun name => (Backend.ofText? name).isNone with
  | [] => return names.filterMap Backend.ofText?
  | unknown => throw (.config (.unknownBackends unknown (Backend.all.map (·.text))))

/-- Adds a file; one of the same path keeps its place and takes the new text. -/
def putOutput (path text : String) : Outputs → Outputs
  | [] => [(path, text)]
  | (p, t) :: rest => if p = path then (p, text) :: rest else (p, t) :: putOutput path text rest

/-- The generated files of all backends in the settings, none of them written yet. -/
def render (g : Generation) : Step Outputs := do
  let backends ← Step.ofExcept g.backends
  let symbols ← g.derive
  let c ← g.checker
  let surface : Surface := ⟨g.model, c.table, symbols, g.settings, g.spelling⟩
  backends.foldlM (fun outputs b => do
    let (path, text) ← Step.ofExcept (b.file surface)
    Step.report (.rendered b)
    return putOutput path text outputs) []

/-- Puts one file at a path, unless it holds its text already. The result says whether it was written. -/
def writeFile (path : Path) (text : String) : Step Bool := do
  match (← get).files.entry? path with
  | some .directory | some (.binary _) => throw (.blocked path.text)
  | some (.file old) =>
    if Text.asRead old = text then
      Step.report (.unchanged path)
      return false
  | none => pure ()
  Step.changeFiles path (·.makeDirectories path.parent)
  Step.changeFiles path (·.writeText path text)
  Step.report (.generated path)
  return true

/-- Renders, and puts the files that changed into the output directory. The result is the paths written. -/
def write (g : Generation) : Step (List Path) := do
  let outputs ← g.render
  let written ← outputs.mapM fun (rel, text) => do
    let path := g.settings.outDir.join (Path.ofText rel)
    return (path, ← writeFile path text)
  return (written.filter (·.2)).map (·.1)

/-- The outcome of a step on a generation of which no step was taken, in an empty file tree. -/
def fresh (step : Generation → Step α) (g : Generation) : Except Failure α :=
  ((step g).run (Progress.start .empty)).1

end Generation

end Bindgen
