import Bindgen.CommandLine.Run

/-!
# The program

Runs from the command line on the files of the working directory. The files that a run reads are put into a
tree: first those that the arguments name, and then those that a run on these would write, since a file that
has its text already is not written. Then every file that has another text after the run is stored.
-/

namespace Bindgen

open Files CommandLine

/-- The tree with one file more, if it can be read from disk. -/
def loadFile (files : Tree) (name : String) : IO Tree := do
  try
    let bytes ← IO.FS.readBinFile name
    let path := Path.ofText name
    let (files, _) := files.makeDirectories path.parent
    return (files.locate path).elim files fun l => files.put l (.ofBytes bytes.toList)
  catch _ => return files

/-- Stores a file on disk, with the directories on the way. -/
def storeFile (name text : String) : IO Unit := do
  match (Path.ofText name).parent.text with
  | "." => pure ()
  | dir => IO.FS.createDirAll dir
  IO.FS.writeFile name text

/-- The names of all files in a tree. -/
def fileNames (files : Tree) : List String := files.allFiles.map (·.1.text)

/-- The files that the arguments name. -/
def inputNames (args : List String) : List String :=
  match Arguments.parse args with
  | .ok a => a.model.toList ++ (a.config.bind id).toList
  | .error _ => []

end Bindgen

open Bindgen Files CommandLine in
/-- Runs the program. -/
def main (args : List String) : IO UInt32 := do
  let inputs ← (inputNames args).foldlM loadFile Tree.empty
  let before ← (((run args inputs).map (·.2)).elim [] fileNames).foldlM loadFile inputs
  let some (ending, after) := run args before | return 1
  for (l, text) in after.allFiles do
    if before.at? l != some (.file text) then storeFile l.text text
  match ending with
  | .stopped code => return code.toUInt32
  | .finished status log =>
    for l in log do IO.eprintln l.text
    return status.toUInt32
  | .uncovered => return 1
