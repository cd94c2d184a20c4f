import Bindgen.Json.Reader

/-!
# Scalars of a settings file

A settings file is TOML. This module reads its strings, numbers, truth values, dates and times, each off the
front of a list of characters, and gives what comes after it too. Values are kept as JSON: of a date or a
time only that it is there, as `true`.
-/

namespace Bindgen.Config.Toml

/-- Why a settings file is not read: it is malformed, or an integer in it has more digits than are
converted. -/
abbrev Error := Json.ReadError

/-- White space inside a line. -/
def isBlank (c : Char) : Bool := c == ' ' || c == '\t'

/-- The characters after leading white space. -/
def skipBlanks (cs : List Char) : List Char := cs.dropWhile isBlank

/-- Control characters. -/
def isControl (c : Char) : Bool := c.toNat < 0x20 || c.toNat == 0x7F

/-- Characters that cannot stand on a line. -/
def isIllegal (c : Char) : Bool := isControl c && c != '\t'

/-- Characters that cannot stand in a text of several lines. -/
def isIllegalInLines (c : Char) : Bool := isIllegal c && c != '\n'

/-- The characters after `front`, if they begin with it. -/
def after? (front : String) (cs : List Char) : Option (List Char) :=
  Json.afterWord? front.toList cs

/-! ## Strings -/

/-- The rest of a literal string, after its opening mark. -/
def readLiteral (cs : List Char) : Except Error (String × List Char) :=
  match cs.span (· != '\'') with
  | (body, _ :: rest) =>
    if body.any isIllegal then .error .malformed else .ok (String.ofList body, rest)
  | _ => .error .malformed

/-- Up to two more marks at the end of a string of several lines belong to it. -/
def readExtraMarks (mark : Char) (body : List Char) : List Char → String × List Char
  | c :: d :: rest =>
    if c = mark then
      if d = mark then (String.ofList (body ++ [mark, mark]), rest)
      else (String.ofList (body ++ [mark]), d :: rest)
    else (String.ofList body, c :: d :: rest)
  | [c] => if c = mark then (String.ofList (body ++ [mark]), []) else (String.ofList body, [c])
  | [] => (String.ofList body, [])

/-- The characters before the first three marks in a row, with `acc` before them, last first, and those
after the marks. -/
def untilMarks (mark : Char) : List Char → List Char → Option (List Char × List Char)
  | acc, c :: d :: e :: rest =>
    if c = mark ∧ d = mark ∧ e = mark then some (acc.reverse, rest)
    else untilMarks mark (c :: acc) (d :: e :: rest)
  | _, _ => none

/-- The characters after one line feed at the front. -/
def skipLineFeed : List Char → List Char
  | '\n' :: cs => cs
  | cs => cs

/-- The rest of a literal string of several lines, after its opening marks. -/
def readLiteralLines (cs : List Char) : Except Error (String × List Char) :=
  match untilMarks '\'' [] (skipLineFeed cs) with
  | some (body, rest) =>
    if body.any isIllegalInLines then .error .malformed
    else .ok (readExtraMarks '\'' body rest)
  | none => .error .malformed

/-- A character given by a count of hexadecimal digits. -/
def readCode (count : Nat) (cs : List Char) : Except Error (List Char × List Char) :=
  match (cs.take count).mapM Json.hexDigit? with
  | some digits =>
    let n := digits.foldl (fun n d => n * 16 + d) 0
    if digits.length = count ∧ n.isValidChar then .ok ([Char.ofNat n], cs.drop count)
    else .error .malformed
  | none => .error .malformed

/-- What an escape stands for; `cs` begins after the backslash. At the end of a line of several, the escape
takes the white space up to the next text away. -/
def readEscape (lines : Bool) (cs : List Char) : Except Error (List Char × List Char) :=
  match cs with
  | 'u' :: cs => readCode 4 cs
  | 'U' :: cs => readCode 8 cs
  | 'b' :: cs => .ok (['\x08'], cs)
  | 't' :: cs => .ok (['\t'], cs)
  | 'n' :: cs => .ok (['\n'], cs)
  | 'f' :: cs => .ok (['\x0c'], cs)
  | 'r' :: cs => .ok (['\r'], cs)
  | '"' :: cs => .ok (['"'], cs)
  | '\\' :: cs => .ok (['\\'], cs)
  | c :: rest =>
    if lines && (isBlank c || c == '\n') then
      match skipBlanks (c :: rest) with
      | [] => .ok ([], [])
      | '\n' :: rest => .ok ([], rest.dropWhile fun c => isBlank c || c == '\n')
      | _ => .error .malformed
    else .error .malformed
  | [] => .error .malformed

/-- The rest of a basic string, with `acc` what was read of it, last first. Every step takes a character, so
a fuel of the count of characters is never used up. -/
def readBasic (lines : Bool) : Nat → List Char → List Char → Except Error (String × List Char)
  | fuel + 1, acc, c :: cs =>
    if c = '"' then
      if lines then
        match cs with
        | '"' :: '"' :: rest => .ok (readExtraMarks '"' acc.reverse rest)
        | _ => readBasic lines fuel (c :: acc) cs
      else .ok (String.ofList acc.reverse, cs)
    else if c = '\\' then
      match readEscape lines cs with
      | .ok (ds, rest) => readBasic lines fuel (ds ++ acc) rest
      | .error e => .error e
    else if (if lines then isIllegalInLines c else isIllegal c) then .error .malformed
    else readBasic lines fuel (c :: acc) cs
  | _, _, _ => .error .malformed

/-- A string, which begins with a mark. -/
def readString (cs : List Char) : Except Error (String × List Char) :=
  match cs with
  | '\'' :: '\'' :: '\'' :: rest => readLiteralLines rest
  | '\'' :: rest => readLiteral rest
  | '"' :: '"' :: '"' :: rest => readBasic true (rest.length + 1) [] (skipLineFeed rest)
  | '"' :: rest => readBasic false (rest.length + 1) [] rest
  | _ => .error .malformed

/-! ## Numbers -/

/-- Digits of a kind, with an underscore between two of them where it pleases, off the front. -/
def digits (isDigit : Char → Bool) : List Char → List Char × List Char
  | [] => ([], [])
  | '_' :: d :: cs =>
    if isDigit d then
      let (ds, rest) := digits isDigit cs
      (d :: ds, rest)
    else ([], '_' :: d :: cs)
  | c :: cs =>
    if isDigit c then
      let (ds, rest) := digits isDigit cs
      (c :: ds, rest)
    else ([], c :: cs)

/-- Digits of a kind that begin with a digit. -/
def digits? (isDigit : Char → Bool) (cs : List Char) : Option (List Char × List Char) :=
  match cs with
  | c :: _ => if isDigit c then some (digits isDigit cs) else none
  | [] => none

/-- The number that digits write in a base. -/
def natOfDigits (base : Nat) (ds : List Char) : Nat :=
  ds.foldl (fun n d => n * base + (Json.hexDigit? d).getD 0) 0

/-- A number in another base than ten. -/
def readBased? (cs : List Char) : Option (Json × List Char) :=
  let based (base : Nat) (isDigit : Char → Bool) (cs : List Char) :=
    (digits? isDigit cs).map fun (ds, rest) => (.int (natOfDigits base ds), rest)
  match cs with
  | '0' :: 'x' :: cs => based 16 (fun c => (Json.hexDigit? c).isSome) cs
  | '0' :: 'o' :: cs => based 8 (fun c => '0' ≤ c && c ≤ '7') cs
  | '0' :: 'b' :: cs => based 2 (fun c => c == '0' || c == '1') cs
  | _ => none

/-- A sign off the front: whether it is there and negative. -/
def readSign (cs : List Char) : Bool × List Char :=
  match cs with
  | '-' :: cs => (true, cs)
  | '+' :: cs => (false, cs)
  | cs => (false, cs)

/-- The digits before a point or exponent: a zero alone, or digits that begin with another. -/
def readWhole? (cs : List Char) : Option (List Char × List Char) :=
  match cs with
  | '0' :: rest => some (['0'], rest)
  | cs => digits? Char.isDigit cs

/-- The digits after a point. -/
def readFraction (cs : List Char) : List Char × List Char :=
  match cs with
  | '.' :: rest => (digits? Char.isDigit rest).getD ([], cs)
  | cs => ([], cs)

/-- An exponent off the front, if one is there. -/
def readExponent (cs : List Char) : Option Int × List Char :=
  match cs with
  | c :: rest =>
    if c = 'e' ∨ c = 'E' then
      let (negative, rest) := readSign rest
      match digits? Char.isDigit rest with
      | some (ds, rest) =>
        let n : Int := natOfDigits 10 ds
        (some (if negative then -n else n), rest)
      | none => (none, cs)
    else (none, cs)
  | [] => (none, cs)

/-- A number in base ten. -/
def readDecimal? (cs : List Char) : Option (Except Error (Json × List Char)) :=
  let (negative, front) := readSign cs
  (readWhole? front).map fun (whole, rest) =>
    let (fraction, rest) := readFraction rest
    let (exponent, rest) := readExponent rest
    if fraction.isEmpty && exponent.isNone then
      if Json.maxDigits < whole.length then .error .tooManyDigits
      else
        let n : Int := natOfDigits 10 whole
        .ok (.int (if negative then -n else n), rest)
    else
      .ok (.number (.decimal negative (natOfDigits 10 (whole ++ fraction))
        (exponent.getD 0 - fraction.length)), rest)

/-- The words for what no digits write. -/
def numberWords : List (String × Json.Number) :=
  [("inf", .infinity false), ("+inf", .infinity false), ("-inf", .infinity true),
   ("nan", .nan), ("+nan", .nan), ("-nan", .nan)]

/-- A number. -/
def readNumber (cs : List Char) : Except Error (Json × List Char) :=
  match readBased? cs with
  | some read => .ok read
  | none => match readDecimal? cs with
    | some read => read
    | none =>
      match numberWords.findSome? fun (word, n) => (after? word cs).map (.number n, ·) with
      | some read => .ok read
      | none => .error .malformed

/-! ## Dates and times -/

/-- A count of digits off the front, as a number. -/
def readDigits? (count : Nat) (cs : List Char) : Option (Nat × List Char) :=
  let front := cs.take count
  if front.length = count ∧ front.all Char.isDigit then some (natOfDigits 10 front, cs.drop count)
  else none

/-- A number of two digits in a range. -/
def readTwo? (low high : Nat) (cs : List Char) : Option (Nat × List Char) :=
  (readDigits? 2 cs).filter fun (n, _) => low ≤ n && n ≤ high

/-- The rest of a time of day, after it. -/
def afterTime? (cs : List Char) : Option (List Char) := do
  let (_, cs) ← readTwo? 0 23 cs
  let (_, cs) ← readTwo? 0 59 (← after? ":" cs)
  let (_, cs) ← readTwo? 0 59 (← after? ":" cs)
  match cs with
  | '.' :: d :: rest => if d.isDigit then some (rest.dropWhile Char.isDigit) else some cs
  | _ => some cs

/-- The rest after an offset from universal time, if there is one. -/
def afterOffset (cs : List Char) : List Char :=
  let offset? : Option (List Char) := do
    match cs with
    | 'Z' :: rest | 'z' :: rest => some rest
    | sign :: rest =>
      if sign = '+' ∨ sign = '-' then
        let (_, rest) ← readTwo? 0 23 rest
        let (_, rest) ← readTwo? 0 59 (← after? ":" rest)
        some rest
      else none
    | [] => none
  offset?.getD cs

/-- The days of a month. -/
def daysIn (year month : Nat) : Nat :=
  if month = 2 then
    if year % 4 = 0 ∧ (year % 100 ≠ 0 ∨ year % 400 = 0) then 29 else 28
  else if month ∈ [4, 6, 9, 11] then 30
  else 31

/-- A date, off the front: whether there is such a day. -/
def readDate? (cs : List Char) : Option (Bool × List Char) := do
  let (year, cs) ← readDigits? 4 cs
  let (month, cs) ← readTwo? 1 12 (← after? "-" cs)
  let (day, cs) ← readTwo? 1 31 (← after? "-" cs)
  return (1 ≤ year && day ≤ daysIn year month, cs)

/-- The rest after the time that may follow a date. -/
def afterTimeOfDate (cs : List Char) : List Char :=
  match cs with
  | c :: rest =>
    if c = 'T' ∨ c = 't' ∨ c = ' ' then
      match afterTime? rest with
      | some rest => afterOffset rest
      | none => cs
    else cs
  | [] => cs

/-- A date or a time, off the front, if there is one. -/
def readMoment? (cs : List Char) : Option (Except Error (Json × List Char)) :=
  match readDate? cs with
  | some (true, rest) => some (.ok (.bool true, afterTimeOfDate rest))
  | some (false, _) => some (.error .malformed)
  | none => (afterTime? cs).map fun rest => .ok (.bool true, rest)

/-! ## Scalars -/

/-- A scalar. -/
def readScalar (cs : List Char) : Except Error (Json × List Char) :=
  match cs with
  | '"' :: _ | '\'' :: _ => do
    let (s, rest) ← readString cs
    return (.string s, rest)
  | _ =>
    match after? "true" cs, after? "false" cs with
    | some rest, _ => .ok (.bool true, rest)
    | _, some rest => .ok (.bool false, rest)
    | none, none => match readMoment? cs with
      | some read => read
      | none => readNumber cs

end Bindgen.Config.Toml
