import Bindgen.Text.Pieces

/-!
# Paths in normal form

A path is a root (nothing, one slash or two) and parts without empty ones and without `.`. Exactly two
slashes at the front are kept, more of them count as one; `..` is kept.
-/

namespace Bindgen.Files

/-- A path in normal form. -/
structure Path where
  root : String
  parts : List String
  deriving DecidableEq, Repr

namespace Path

/-- The root of a text that begins with a given number of slashes. -/
def rootOf : Nat → String
  | 0 => ""
  | 2 => "//"
  | _ => "/"

/-- The normal form of a text. -/
def ofText (s : String) : Path :=
  ⟨rootOf (s.toList.takeWhile (· == '/')).length,
    (Text.split '/' s).filter fun p => p != "" && p != "."⟩

/-- A path as text; the empty path is `.`. -/
def text (p : Path) : String :=
  if p.root == "" && p.parts.isEmpty then "." else p.root ++ "/".intercalate p.parts

/-- The path `rel` as seen from `base`; a path with a root stands by itself. -/
def join (base rel : Path) : Path :=
  if rel.root == "" then ⟨base.root, base.parts ++ rel.parts⟩ else rel

/-- Whether a path has the character with number zero in it, which no file can be named by. -/
def hasNull (p : Path) : Bool := p.parts.any (·.toList.contains '\x00')

/-- The most bytes of the name of a file. -/
def longestName : Nat := 255

/-- The bytes that a path has to stay below. -/
def pathBound : Nat := 4096

/-- Whether a part of a path can be the name of a file. -/
def isName (part : String) : Bool :=
  part.utf8ByteSize ≤ longestName && !part.toList.contains '\x00'

/-- Whether a path is short enough to be followed. -/
def isShort (p : Path) : Bool := p.text.utf8ByteSize < pathBound

/-- The path without its last part. -/
def parent (p : Path) : Path :=
  ⟨p.root, p.parts.dropLast⟩

end Path

end Bindgen.Files
