import Bindgen.Text.Points

/-!
# Literals

`Literal` is a value as messages show it: texts and bytes between quotation marks, lists in square brackets,
tuples in round ones, tables in curly ones, and calls of a class with the fields of an instance. Whatever has
a notation of its own is a `word`.
-/

namespace Bindgen.Text

/-- A value as it is shown. -/
inductive Literal where
  | word (s : String)
  | text (s : String)
  | broken (b : Broken)
  | bytes (b : List UInt8)
  | list (items : List Literal)
  | tuple (items : List Literal)
  | table (entries : List (Literal × Literal))
  /-- A name with one argument. -/
  | wrapped (name : String) (argument : Literal)
  /-- A class with fields. -/
  | fields (name : String) (members : List (String × Literal))

/-- One byte inside a literal whose mark is `mark`. -/
def byteLiteral (mark : Char) (b : UInt8) : List Char :=
  let c := Char.ofNat b.toNat
  if 0x20 ≤ b ∧ b < 0x7f then quotedChar mark c
  else if c = '\t' ∨ c = '\n' ∨ c = '\r' then quotedChar mark c
  else '\\' :: 'x' :: hexPadded 2 b.toNat

/-- Bytes as a literal. -/
def bytesLiteral (b : List UInt8) : String :=
  let mark := quotedMark (b.map fun x => Char.ofNat x.toNat)
  String.ofList ('b' :: mark :: b.flatMap (byteLiteral mark) ++ [mark])

namespace Literal

mutual

/-- A literal as text. -/
def shown : Literal → String
  | word s => s
  | text s => quoted s
  | broken b => b.quoted
  | bytes b => bytesLiteral b
  | list items => "[" ++ ", ".intercalate (shownAll items) ++ "]"
  | tuple [x] => "(" ++ shown x ++ ",)"
  | tuple items => "(" ++ ", ".intercalate (shownAll items) ++ ")"
  | table entries => "\x7b" ++ ", ".intercalate (shownEntries entries) ++ "\x7d"
  | wrapped name argument => name ++ "(" ++ shown argument ++ ")"
  | fields name members => name ++ "(" ++ ", ".intercalate (shownMembers members) ++ ")"

/-- Some literals as texts. -/
def shownAll : List Literal → List String
  | [] => []
  | x :: xs => shown x :: shownAll xs

/-- Some entries as texts. -/
def shownEntries : List (Literal × Literal) → List String
  | [] => []
  | (k, v) :: rest => (shown k ++ ": " ++ shown v) :: shownEntries rest

/-- Some fields as texts. -/
def shownMembers : List (String × Literal) → List String
  | [] => []
  | (name, v) :: rest => (name ++ "=" ++ shown v) :: shownMembers rest

end

/-- A literal where it stands by itself: a text needs no quotation marks there. -/
def bare : Literal → String
  | text s => s
  | broken b => b.shown
  | l => l.shown

end Literal

/-- What a program holds as a text, as a literal. -/
def Str.literal : Str → Literal
  | text s => .text s
  | broken b => .broken b

end Bindgen.Text
