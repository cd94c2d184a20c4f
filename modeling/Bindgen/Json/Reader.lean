import Bindgen.Json.Basic

/-!
# Reading JSON

`Json.parse` reads a text as one JSON value with nothing after it but white space. Strings are strict: a
control character inside one is refused, as is an unknown escape. Numbered escapes are taken as they are, also
where they stand for a lone surrogate. A repeated key of an object keeps its first place and takes its last value.
Besides numbers, `NaN`, `Infinity` and `-Infinity` are read.
-/

namespace Bindgen.Json

open Text

/-- Why a text is not read: it is no JSON, or an integer in it has more digits than are converted. -/
inductive ReadError where
  | malformed
  | tooManyDigits
  deriving DecidableEq, Repr

/-- The most digits of an integer that are converted. -/
def maxDigits : Nat := 4300

/-- White space between tokens. -/
def isSpace (c : Char) : Bool :=
  c == ' ' || c == '\t' || c == '\n' || c == '\r'

/-- The characters after leading white space. -/
def skip (cs : List Char) : List Char :=
  cs.dropWhile isSpace

/-- The value of a hexadecimal digit. -/
def hexDigit? (c : Char) : Option Nat :=
  if c.isDigit then some (c.toNat - '0'.toNat)
  else if 'a' ≤ c ∧ c ≤ 'f' then some (c.toNat - 'a'.toNat + 10)
  else if 'A' ≤ c ∧ c ≤ 'F' then some (c.toNat - 'A'.toNat + 10)
  else none

/-- Four hexadecimal digits off the front. -/
def hex4? : List Char → Option (Nat × List Char)
  | a :: b :: c :: d :: cs => do
    return (((← hexDigit? a) * 16 + (← hexDigit? b)) * 256 + (← hexDigit? c) * 16 + (← hexDigit? d), cs)
  | _ => none

/-- The character of a short escape. -/
def shortEscape? : Char → Option Char
  | '"' => some '"'
  | '\\' => some '\\'
  | '/' => some '/'
  | 'b' => some '\x08'
  | 'f' => some '\x0c'
  | 'n' => some '\n'
  | 'r' => some '\r'
  | 't' => some '\t'
  | _ => none

/-- The number of a low surrogate that is escaped at the front. -/
def lowEscape? : List Char → Option (Nat × List Char)
  | '\\' :: 'u' :: cs => do
    let (n, rest) ← hex4? cs
    if 0xDC00 ≤ n ∧ n < 0xE000 then return (n, rest) else none
  | _ => none

/-- The code point of a numbered escape, whose digits begin at `cs`. A high surrogate and a low one that is
escaped right after it are one character. Any other surrogate stands for itself, and nothing after it is taken. -/
def numberedEscape? (cs : List Char) : Option (Point × List Char) := do
  let (n, rest) ← hex4? cs
  if 0xD800 ≤ n ∧ n < 0xDC00 then
    match lowEscape? rest with
    | some (low, rest) => return (.ofNat (0x10000 + (n - 0xD800) * 0x400 + (low - 0xDC00)), rest)
    | none => return (.ofNat n, rest)
  else return (.ofNat n, rest)

/-- The rest of a string after its opening mark, with `acc` the code points read so far, last first. -/
def readString : Nat → List Point → List Char → Except ReadError (Str × List Char)
  | fuel + 1, acc, c :: cs =>
    if c = '"' then .ok (.ofPoints acc.reverse, cs)
    else if c = '\\' then
      match cs with
      | 'u' :: more =>
        match numberedEscape? more with
        | some (p, rest) => readString fuel (p :: acc) rest
        | none => .error .malformed
      | e :: rest =>
        match shortEscape? e with
        | some d => readString fuel (.char d :: acc) rest
        | none => .error .malformed
      | [] => .error .malformed
    else if c.toNat < 0x20 then .error .malformed
    else readString fuel (.char c :: acc) cs
  | _, _, _ => .error .malformed

/-- The number that decimal digits write. -/
def natOfDigits (ds : List Char) : Nat :=
  ds.foldl (fun n d => n * 10 + (d.toNat - '0'.toNat)) 0

/-- The fraction digits off the front: a point counts only with a digit after it. -/
def readFraction : List Char → List Char × List Char
  | '.' :: cs => match cs.span Char.isDigit with
    | ([], _) => ([], '.' :: cs)
    | (ds, rest) => (ds, rest)
  | cs => ([], cs)

/-- The exponent off the front, if one is there with a digit. -/
def readExponent (cs : List Char) : Option Int × List Char :=
  match cs with
  | e :: rest =>
    if e = 'e' ∨ e = 'E' then
      let (negative, digits) := match rest with
        | '-' :: more => (true, more)
        | '+' :: more => (false, more)
        | _ => (false, rest)
      match digits.span Char.isDigit with
      | ([], _) => (none, cs)
      | (ds, rest) => (some (if negative then -(natOfDigits ds : Int) else natOfDigits ds), rest)
    else (none, cs)
  | [] => (none, cs)

/-- A number without its sign. -/
def readNumber (negative : Bool) (cs : List Char) : Except ReadError (Raw × List Char) :=
  match cs.span Char.isDigit with
  | ([], _) => .error .malformed
  | (ds, rest) =>
    let (ds, rest) := if ds.head? = some '0' then (['0'], ds.drop 1 ++ rest) else (ds, rest)
    let (fraction, rest) := readFraction rest
    let (exponent, rest) := readExponent rest
    if fraction.isEmpty && exponent.isNone then
      if maxDigits < ds.length then .error .tooManyDigits
      else .ok (.int (if negative then -(natOfDigits ds : Int) else natOfDigits ds), rest)
    else
      let value := Number.decimal negative (natOfDigits (ds ++ fraction))
        (exponent.getD 0 - fraction.length)
      .ok (.number value, rest)

/-- The characters after `word`, if they begin with it. -/
def afterWord? : List Char → List Char → Option (List Char)
  | [], cs => some cs
  | w :: ws, c :: cs => if w = c then afterWord? ws cs else none
  | _ :: _, [] => none

/-- The words that are values. -/
def words : List (List Char × Raw) :=
  [("null".toList, .null), ("true".toList, .bool true), ("false".toList, .bool false),
   ("NaN".toList, .number .nan), ("Infinity".toList, .number (.infinity false)),
   ("-Infinity".toList, .number (.infinity true))]

/-- A word that is a value, off the front. -/
def readWord? (cs : List Char) : Option (Raw × List Char) :=
  words.findSome? fun (word, value) => (afterWord? word cs).map (value, ·)

mutual

/-- Reads a value off the front. A level of the value takes a character and at most two units of fuel, so
a fuel of twice the length of the text is never used up. -/
def readValue : Nat → List Char → Except ReadError (Raw × List Char)
  | 0, _ => .error .malformed
  | fuel + 1, cs =>
    match cs with
    | '"' :: rest => do
      let (s, rest) ← readString (rest.length + 1) [] rest
      return (.string s, rest)
    | '[' :: rest =>
      match skip rest with
      | ']' :: rest => .ok (.array [], rest)
      | rest => readItems fuel [] rest
    | '\x7b' :: rest =>
      match skip rest with
      | '\x7d' :: rest => .ok (.object [], rest)
      | rest => readMembers fuel [] rest
    | _ =>
      match readWord? cs with
      | some read => .ok read
      | none => match cs with
        | '-' :: rest => readNumber true rest
        | _ => readNumber false cs

/-- The rest of an array after some of its items, which are in `acc`, last first. -/
def readItems : Nat → List Raw → List Char → Except ReadError (Raw × List Char)
  | 0, _, _ => .error .malformed
  | fuel + 1, acc, cs => do
    let (v, rest) ← readValue fuel cs
    match skip rest with
    | ']' :: rest => return (.array (v :: acc).reverse, rest)
    | ',' :: rest => readItems fuel (v :: acc) (skip rest)
    | _ => throw .malformed

/-- The rest of an object after some of its members, which are in `acc`. -/
def readMembers : Nat → List (Str × Raw) → List Char → Except ReadError (Raw × List Char)
  | 0, _, _ => .error .malformed
  | fuel + 1, acc, cs => do
    match cs with
    | '"' :: rest =>
      let (key, rest) ← readString (rest.length + 1) [] rest
      match skip rest with
      | ':' :: rest =>
        let (v, rest) ← readValue fuel (skip rest)
        let acc := JsonOf.setMember key v acc
        match skip rest with
        | '\x7d' :: rest => return (.object acc, rest)
        | ',' :: rest => readMembers fuel acc (skip rest)
        | _ => throw .malformed
      | _ => throw .malformed
    | _ => throw .malformed

end

/-- Reads a text as one JSON value. -/
def parse (text : String) : Except ReadError Raw := do
  let cs := skip text.toList
  match ← readValue (2 * cs.length + 2) cs with
  | (v, rest) => if (skip rest).isEmpty then return v else throw .malformed

end Bindgen.Json
