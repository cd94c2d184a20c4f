import Bindgen.Interface.Ty
import Bindgen.Text.Pieces

/-!
# Lines of generated code

Generated code is text that refers to converters. What the converter of a type is called is a matter of the
backend, so `Code` leaves these names open, and `Code.textWith` is the text under given names. Generated files
are lists of lines, each of them code (`fileText`).

`indent` moves lines to the right, `braced` puts a body between braces, and `chained` does so for several
bodies in a row, as in `try … catch …`.
-/

namespace Bindgen.Emit

open Interface

/-- `n` blanks. -/
def blanks (n : Nat) : String :=
  String.ofList (List.replicate n ' ')

/-! ## Code -/

/-- Generated code. -/
inductive Code where
  | text (s : String)
  /-- The converter of a type. -/
  | converter (t : Ty)
  /-- Code next to other code. -/
  | append (c d : Code)
  /-- Code whose lines are all moved right by `n` blanks, the empty ones too. -/
  | moved (n : Nat) (c : Code)
  deriving DecidableEq, Repr

instance : Append Code := ⟨Code.append⟩
instance : Coe String Code := ⟨Code.text⟩

namespace Code

/-- The text of some code where converters have the given names. -/
def textWith (name : Ty → String) : Code → String
  | text s => s
  | converter t => name t
  | append c d => c.textWith name ++ d.textWith name
  | moved n c => "\n".intercalate ((Text.split '\n' (c.textWith name)).map (blanks n ++ ·))

/-- Some code in a row, with a text between neighbours. -/
def join (separator : String) : List Code → Code
  | [] => ""
  | [c] => c
  | c :: cs => c ++ separator ++ join separator cs

/-- Whether some code is nothing but empty text. -/
def isEmpty : Code → Bool
  | text s => s == ""
  | append c d => c.isEmpty && d.isEmpty
  | converter _ | moved _ _ => false

/-- A line moved right by `n` blanks; an empty line stays empty. -/
def indent (n : Nat) : Code → Code
  | moved k c => moved (n + k) c
  | c => if c.isEmpty then c else blanks n ++ c

end Code

/-! ## Lines -/

/-- Lines that are nothing but text. -/
def texts (lines : List String) : List Code :=
  lines.map .text

/-- The text of a file where converters have the given names. -/
def fileText (name : Ty → String) (lines : List Code) : String :=
  "\n".intercalate (lines.map (·.textWith name))

/-- An empty line. -/
def emptyLine : List Code := [""]

/-- Lines moved right by `n` blanks; an empty line stays empty. -/
def indent (n : Nat) (lines : List Code) : List Code :=
  lines.map (·.indent n)

/-- What follows the first body of a chain. -/
def chainTail : List (Code × List Code) → List Code
  | [] => ["\x7d"]
  | (head, body) :: rest => ["\x7d " ++ head ++ " \x7b"] ++ indent 4 body ++ chainTail rest

/-- Bodies between braces, each after its head; all but the first begin where the one before ends. -/
def chained : List (Code × List Code) → List Code
  | [] => []
  | (head, body) :: rest => [head ++ " \x7b"] ++ indent 4 body ++ chainTail rest

/-- A body between braces, after its head. -/
def braced (head : Code) (body : List Code) : List Code :=
  chained [(head, body)]

end Bindgen.Emit
