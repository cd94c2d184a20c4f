import Bindgen.Files.Path
import Bindgen.Text.Newline
import Bindgen.Text.Utf8

/-!
# File trees

A `Tree` holds files and directories by their locations: those below a top directory, those beside it, which
`..` leads to from the top, and those below the root. A path is followed from the top or the root: every part
but the last has to lead into a directory, and `..` leads one back. A path that is too long leads nowhere. New
names have to be ones that files can have.

Most files hold texts. One that does not is in the way of everything that is read or put there. Permissions, links
and what a disk can hold are left out.
-/

namespace Bindgen.Files

/-- The names on the way from the top, or from the root, which then stands at the front. Above the top there
is one `..` for each step. -/
abbrev Location := List String

namespace Location

/-- The location of the root. -/
def root : Location := ["/"]

/-- Whether a location is the top, the root or above the top. Directories stand there always. -/
def isGiven (l : Location) : Bool := l == root || l.all (· == "..")

/-- Whether a location is below the top. -/
def isBelowTop (l : Location) : Bool :=
  match l.head? with
  | some name => name != "/" && name != ".."
  | none => true

/-- One step back from a location. The root leads back to itself. -/
def back (l : Location) : Location :=
  if l = root then l else if l.isGiven then l ++ [".."] else l.dropLast

/-- Where a path begins. -/
def ofRoot (text : String) : Location := if text = "" then [] else root

/-- A location as a path. -/
def text (l : Location) : String :=
  match l with
  | "/" :: names => "/" ++ "/".intercalate names
  | names => "/".intercalate names

end Location

/-- Bytes that are the form of no text. -/
structure Binary where
  bytes : List UInt8
  illFormed : Text.Utf8.decode bytes = none
  deriving DecidableEq, Repr

/-- What stands at a location. -/
inductive Entry where
  | directory
  /-- A file that holds a text. -/
  | file (text : String)
  /-- A file of other bytes. -/
  | binary (content : Binary)
  deriving DecidableEq, Repr

/-- A file of some bytes. -/
def Entry.ofBytes (bytes : List UInt8) : Entry :=
  match h : Text.Utf8.decode bytes with
  | some text => .file text
  | none => .binary ⟨bytes, h⟩

/-- Files and directories. -/
structure Tree where
  entries : List (Location × Entry)
  deriving DecidableEq, Repr

namespace Tree

/-- A tree of no files. -/
def empty : Tree := ⟨[]⟩

/-- What stands at a location. -/
def at? (t : Tree) (l : Location) : Option Entry :=
  if l.isGiven then some .directory else t.entries.lookup l

/-- Sets what stands at a location. -/
def putEntry (l : Location) (e : Entry) : List (Location × Entry) → List (Location × Entry)
  | [] => [(l, e)]
  | (m, f) :: rest => if m = l then (l, e) :: rest else (m, f) :: putEntry l e rest

/-- The tree with something set at a location. -/
def put (t : Tree) (l : Location) (e : Entry) : Tree := ⟨putEntry l e t.entries⟩

/-- Where one part leads to from a location. -/
def step (here : Location) (part : String) : Location :=
  if part = ".." then here.back else here ++ [part]

/-- Where parts lead to from a location. -/
def follow (t : Tree) : Location → List String → Option Location
  | here, [] => some here
  | here, part :: rest =>
    if t.at? here = some .directory then t.follow (step here part) rest else none

/-- Where a path leads to. Nothing needs to stand there. -/
def locate (t : Tree) (p : Path) : Option Location :=
  if p.isShort then t.follow (.ofRoot p.root) p.parts else none

/-- What stands where a path leads to. -/
def entry? (t : Tree) (p : Path) : Option Entry :=
  (t.locate p).bind t.at?

/-- Whether something stands where a path leads to. -/
def contains (t : Tree) (p : Path) : Bool := (t.entry? p).isSome

/-- The text of a file, as it is read. -/
def readText? (t : Tree) (p : Path) : Option String :=
  match t.entry? p with
  | some (.file text) => some (Text.asRead text)
  | _ => none

/-- Makes the directories that parts lead through, from a location on, as far as nothing is in the way. The
truth value says whether all are there. -/
def makeFrom (t : Tree) : Location → List String → Tree × Bool
  | _, [] => (t, true)
  | here, part :: rest =>
    let next := step here part
    match t.at? next with
    | some .directory => t.makeFrom next rest
    | some _ => (t, false)
    | none => if Path.isName part then (t.put next .directory).makeFrom next rest else (t, false)

/-- Makes the directory of a path and those on the way to it. -/
def makeDirectories (t : Tree) (p : Path) : Tree × Bool :=
  if p.isShort then t.makeFrom (.ofRoot p.root) p.parts else (t, false)

/-- Writes a file into a directory that is there. A text always has a form in bytes, so only the path can be in the
way. -/
def writeText (t : Tree) (p : Path) (text : String) : Tree × Bool :=
  match t.locate p with
  | some l =>
    if t.at? l = some .directory ∨ !Path.isName (l.getLastD "") then (t, false)
    else if t.at? l.dropLast = some .directory then (t.put l (.file text), true)
    else (t, false)
  | none => (t, false)

/-- Writes a file, making the directories on the way. -/
def store (t : Tree) (p : Path) (text : String) : Tree × Bool :=
  match t.makeDirectories p.parent with
  | (t, true) => t.writeText p text
  | (t, false) => (t, false)

/-- All files that hold texts, by their locations. -/
def allFiles (t : Tree) : List (Location × String) :=
  t.entries.filterMap fun (l, e) => match e with
    | .file text => some (l, text)
    | .directory | .binary _ => none

/-- The texts below the top by their paths, in ascending order. -/
def files (t : Tree) : List (String × String) :=
  let found := (t.allFiles.filter (·.1.isBelowTop)).map fun (l, text) => (l.text, text)
  found.mergeSort fun a b => decide (a.1 ≤ b.1)

end Tree

end Bindgen.Files
