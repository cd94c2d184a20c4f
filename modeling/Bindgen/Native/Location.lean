import Bindgen.Files.Tree
import Bindgen.Text.Case

/-!
# Finding the native library

The file of a library is named by the rule of the platform. It is taken from where an environment variable
says, else from a search directory or the working directory if it is there, and is left to the system if not.
-/

namespace Bindgen.Native

open Files

/-- Platforms that name library files differently. -/
inductive Platform where
  | windows
  | darwin
  | other
  deriving DecidableEq, Repr

/-- The platform of a name. -/
def Platform.ofText : String → Platform
  | "win32" => .windows
  | "darwin" => .darwin
  | _ => .other

/-- The file of a library. -/
def Platform.libraryFile (p : Platform) (name : String) : String :=
  match p with
  | .windows => s!"{name}.dll"
  | .darwin => s!"lib{name}.dylib"
  | .other => s!"lib{name}.so"

/-- The environment variable that says where a library is. -/
def libraryVariable (name : String) : String :=
  Text.upper name ++ "_LIBRARY_PATH"

/-- A file in a directory, as text. A file that begins at the root stands by itself. -/
def inDirectory (dir file : String) : String :=
  if file.startsWith "/" then file
  else if dir.endsWith "/" then dir ++ file
  else dir ++ "/" ++ file

/-- Where a library is looked for. -/
structure Surroundings where
  platform : Platform
  /-- The environment variables, by name. -/
  environment : List (String × String)
  /-- The files below the working directory. -/
  files : Tree
  /-- The working directory, as text. -/
  workingDir : String
  /-- The directory that is searched first. -/
  searchDir : Option String

namespace Surroundings

/-- Places to look for a file: as they are named, and as paths from the working directory. -/
def candidates (s : Surroundings) (file : String) : List (String × Path) :=
  let searched := match s.searchDir with
    | none | some "" => []
    | some dir => [(inDirectory dir file, Path.ofText (inDirectory dir file))]
  searched ++ [(inDirectory s.workingDir file, Path.ofText file)]

/-- What is loaded for a library. -/
def libraryPath (s : Surroundings) (name : String) : String :=
  let file := s.platform.libraryFile name
  match s.environment.lookup (libraryVariable name) with
  | none | some "" =>
    match (s.candidates file).find? fun (_, path) => s.files.contains path with
    | some (text, _) => text
    | none => file
  | some path => path

end Surroundings

end Bindgen.Native
