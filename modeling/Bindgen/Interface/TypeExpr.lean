import Bindgen.Interface.Ty
import Bindgen.Text.Classes

/-!
# Type expressions

The concrete syntax of types, such as `map<string, sequence<Point>>`. A text is cut into tokens (words and
the three marks `<`, `>`, `,`; white space separates and is dropped), and the tokens are read by recursive
descent. `parse` is the whole reader; `TypeExpr.Error` says what is wrong with a text that is no type.
-/

namespace Bindgen.Interface

/-- The tokens of a type expression. -/
inductive Token where
  | word (w : String)
  | open
  | close
  | comma
  deriving DecidableEq, Repr

/-- A token as it is written. -/
def Token.text : Token → String
  | .word w => w
  | .open => "<"
  | .close => ">"
  | .comma => ","

namespace TypeExpr

/-- What is wrong with a type expression. -/
inductive Error where
  | invalidCharacter (c : Char)
  | empty
  | truncated
  | unexpected (found : Token)
  | expected (wanted : Token)
  deriving DecidableEq, Repr

/-- The wording of an error in the type expression `expr`. -/
def Error.message (expr : String) : Error → String
  | invalidCharacter c => s!"invalid character '{c}' in type '{expr}'"
  | empty => "empty type expression"
  | truncated => s!"truncated type '{expr}'"
  | unexpected found => s!"unexpected '{found.text}' in type '{expr}'"
  | expected wanted => s!"expected '{wanted.text}' in type '{expr}'"

/-- The mark that a character stands for. -/
def mark? : Char → Option Token
  | '<' => some .open
  | '>' => some .close
  | ',' => some .comma
  | _ => none

/-- The tokens of a text, with `word` the characters (last first) of the word being read. -/
def scanFrom (word : List Char) : List Char → Except Error (List Token)
  | [] => .ok (flush [])
  | c :: cs =>
    if Text.isWordChar c then scanFrom (c :: word) cs
    else if Text.isBlank c then return flush (← scanFrom [] cs)
    else match mark? c with
      | some t => return flush (t :: (← scanFrom [] cs))
      | none => .error (.invalidCharacter c)
where
  /-- The finished word, if there is one, before the tokens that follow it. -/
  flush (rest : List Token) : List Token :=
    if word.isEmpty then rest else .word (String.ofList word.reverse) :: rest

/-- The tokens of a type expression. -/
def scan (cs : List Char) : Except Error (List Token) :=
  scanFrom [] cs

/-- Drops the token `wanted` from the front. -/
def expect (wanted : Token) : List Token → Except Error (List Token)
  | t :: ts => if t = wanted then .ok ts else .error (.expected wanted)
  | [] => .error (.expected wanted)

/-- The leaf type of a word that is no constructor. -/
def leaf (w : String) : Ty :=
  if w = "string" then .string
  else if w = "bytes" then .bytes
  else match Prim.ofText? w with
    | some p => .prim p
    | none => .named w

/-- The constructor of one argument that a word stands for. -/
def wrapper? (w : String) : Option (Ty → Ty) :=
  if w = "optional" then some .optional
  else if w = "sequence" then some .sequence
  else if w = "box" then some .box
  else none

/-- Reads a type off the front of the tokens, at most `fuel` constructors deep. Each constructor takes a
token, so a fuel above the number of tokens is never used up. -/
def readTy : Nat → List Token → Except Error (Ty × List Token)
  | 0, _ => .error .truncated
  | _ + 1, [] => .error .truncated
  | fuel + 1, .word w :: ts =>
    match wrapper? w with
    | some wrap => do
      let ts ← expect .open ts
      let (inner, ts) ← readTy fuel ts
      let ts ← expect .close ts
      return (wrap inner, ts)
    | none =>
      if w = "map" then do
        let ts ← expect .open ts
        let (key, ts) ← readTy fuel ts
        let ts ← expect .comma ts
        let (value, ts) ← readTy fuel ts
        let ts ← expect .close ts
        return (.map key value, ts)
      else .ok (leaf w, ts)
  | _ + 1, t :: _ => .error (.unexpected t)

/-- Reads tokens as one type. -/
def ofTokens (ts : List Token) : Except Error Ty := do
  if ts.isEmpty then throw .empty
  match ← readTy (ts.length + 1) ts with
  | (t, []) => return t
  | (_, found :: _) => throw (.unexpected found)

/-- Reads a text as one type. -/
def parse (expr : String) : Except Error Ty := do
  ofTokens (← scan expr.toList)

end TypeExpr

/-- The tokens of a type as it is written. -/
def Ty.tokens : Ty → List Token
  | .prim p => [.word p.text]
  | .string => [.word "string"]
  | .bytes => [.word "bytes"]
  | .optional t => .word "optional" :: .open :: t.tokens ++ [.close]
  | .sequence t => .word "sequence" :: .open :: t.tokens ++ [.close]
  | .map k v => .word "map" :: .open :: k.tokens ++ .comma :: v.tokens ++ [.close]
  | .named n => [.word n]
  | .box t => .word "box" :: .open :: t.tokens ++ [.close]

end Bindgen.Interface
