import Bindgen.Text.Quoted

/-!
# Texts with lone surrogates

A running program may hold a text that is none: among its code points there are surrogates, each of which is half
of what stands for one character where code units have 16 bits. By itself a surrogate is no character, and no
encoding has room for it. `Broken` is such a text, and `Str` is what a program holds as a text, whichever it is.

Where a broken text is shown, each surrogate stands as its escape.
-/

namespace Bindgen.Text

/-- A surrogate, by its distance from the first one. -/
structure Surrogate where
  offset : Fin 0x800
  deriving DecidableEq, Repr

/-- The code point of a surrogate. -/
def Surrogate.code (s : Surrogate) : Nat := 0xD800 + s.offset

/-- A code point. -/
inductive Point where
  | char (c : Char)
  | surrogate (s : Surrogate)
  deriving DecidableEq, Repr

namespace Point

/-- The character at a code point. -/
def char? : Point → Option Char
  | char c => some c
  | surrogate _ => none

/-- The code point of a number. -/
def ofNat (n : Nat) : Point :=
  if h : 0xD800 ≤ n ∧ n < 0xE000 then surrogate ⟨⟨n - 0xD800, by omega⟩⟩ else char (Char.ofNat n)

/-- A surrogate as an escape. -/
def escape (s : Surrogate) : List Char := '\\' :: 'u' :: hexPadded 4 s.code

/-- A code point as it is shown. -/
def shown : Point → List Char
  | char c => [c]
  | surrogate s => escape s

end Point

/-- The characters of code points, if all of them are. -/
def chars? (points : List Point) : Option (List Char) :=
  points.mapM Point.char?

/-- Code points that are no text: there is a surrogate among them. -/
structure Broken where
  points : List Point
  noText : chars? points = none
  deriving DecidableEq, Repr

namespace Broken

/-- A broken text as it is shown. -/
def shown (b : Broken) : String :=
  String.ofList (b.points.flatMap Point.shown)

/-- A broken text as a literal. -/
def quoted (b : Broken) : String :=
  let mark := quotedMark (b.points.filterMap Point.char?)
  let inner := b.points.flatMap fun
    | .char c => quotedChar mark c
    | .surrogate s => Point.escape s
  String.ofList (mark :: inner ++ [mark])

/-- Whether a code point is a surrogate. -/
def isLone (p : Point) : Bool := p.char?.isNone

/-- Why a broken text has no form in bytes: its first surrogates that stand together, and where. -/
def encodingText (b : Broken) : String :=
  let first := (b.points.takeWhile (!isLone ·)).length
  let lone := (b.points.drop first).takeWhile isLone
  match lone with
  | [p] =>
    let shown := String.ofList p.shown
    s!"'utf-8' codec can't encode character '{shown}' in position {first}: surrogates not allowed"
  | lone =>
    let last := first + lone.length - 1
    s!"'utf-8' codec can't encode characters in position {first}-{last}: surrogates not allowed"

end Broken

/-- What a program holds as a text. -/
inductive Str where
  | text (s : String)
  | broken (b : Broken)
  deriving DecidableEq, Repr

namespace Str

instance : Coe String Str := ⟨.text⟩

/-- The empty text. -/
instance : Inhabited Str := ⟨.text ""⟩

/-- The text of code points. -/
def ofPoints (points : List Point) : Str :=
  match h : chars? points with
  | some cs => text (String.ofList cs)
  | none => broken ⟨points, h⟩

/-- The code points of a text. -/
def points : Str → List Point
  | text s => s.toList.map .char
  | broken b => b.points

/-- The text, if it is one. -/
def text? : Str → Option String
  | text s => some s
  | broken _ => none

/-- A text as it is shown. -/
def shown : Str → String
  | text s => s
  | broken b => b.shown

end Str

end Bindgen.Text
