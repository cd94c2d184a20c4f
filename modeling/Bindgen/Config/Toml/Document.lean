import Bindgen.Config.Toml.Scalar

/-!
# Settings files

`Toml.parse` reads a settings file as one table. A statement sets a key below the table that the last header
opened. Which keys may still be opened or set is remembered in marks: a table is opened by one header only,
and an inline table or array is never changed after it was written.
-/

namespace Bindgen.Config.Toml

/-- A key with its parts. -/
abbrev Key := List String

/-! ## Keys -/

/-- Characters of a key without quotation marks. -/
def isBareKeyChar (c : Char) : Bool := c.isAlphanum || c == '-' || c == '_'

/-- One part of a key. -/
def readKeyPart (cs : List Char) : Except Error (String × List Char) :=
  match cs with
  | '\'' :: rest => readLiteral rest
  | '"' :: rest => readBasic false (rest.length + 1) [] rest
  | _ =>
    match cs.span isBareKeyChar with
    | ([], _) => .error .malformed
    | (part, rest) => .ok (String.ofList part, rest)

/-- A key. Each part takes a character, so a fuel of the count of characters is never used up. -/
def readKey : Nat → List Char → Except Error (Key × List Char)
  | 0, _ => .error .malformed
  | fuel + 1, cs => do
    let (part, rest) ← readKeyPart cs
    match skipBlanks rest with
    | '.' :: rest => do
      let (parts, rest) ← readKey fuel (skipBlanks rest)
      return (part :: parts, rest)
    | rest => return ([part], rest)

/-! ## Tables -/

/-- What can be said about a key. -/
inductive Mark where
  /-- It cannot be changed any more. -/
  | frozen
  /-- A header or a dotted key has opened it. -/
  | opened
  deriving DecidableEq, Repr

/-- Marks of keys. A mark that reaches down holds for all longer keys too. -/
abbrev Marks := List (Key × Mark × Bool)

namespace Marks

/-- Whether a key has a mark. -/
def has (marks : Marks) (key : Key) (mark : Mark) : Bool :=
  marks.any fun (k, m, down) => m == mark && (k == key || (down && k.isPrefixOf key))

/-- Takes all marks off a key and the keys below it. -/
def clear (marks : Marks) (key : Key) : Marks :=
  marks.filter fun (k, _, _) => !key.isPrefixOf k

end Marks

/-- Changes the table at a key below a table, making the tables on the way; `throughLists` says whether the
last item of a list stands for the list. -/
def atKey (throughLists : Bool) (f : List (String × Json) → Except Error (List (String × Json))) :
    Key → Json → Except Error Json
  | [], .object members => .object <$> f members
  | part :: parts, .object members =>
    let changed : Except Error Json :=
      match (members.lookup part).getD (.object []) with
      | .array items =>
        match throughLists, items.getLast? with
        | true, some last =>
          (fun last => .array (items.dropLast ++ [last])) <$> atKey throughLists f parts last
        | _, _ => .error .malformed
      | inner => atKey throughLists f parts inner
    (fun inner => .object (JsonOf.setMember part inner members)) <$> changed
  | _, _ => .error .malformed

/-- Sets a key that has no value yet. -/
def addMember (name : String) (value : Json) (members : List (String × Json)) :
    Except Error (List (String × Json)) :=
  if (members.lookup name).isSome then .error .malformed else .ok (members ++ [(name, value)])

/-- Adds an empty table to the list under a name. -/
def addTable (name : String) (members : List (String × Json)) : Except Error (List (String × Json)) :=
  match members.lookup name with
  | none => .ok (members ++ [(name, .array [.object []])])
  | some (.array items) => .ok (JsonOf.setMember name (.array (items ++ [.object []])) members)
  | some _ => .error .malformed

/-! ## Values -/

/-- The characters after a comment at the front, if one is there. -/
def skipComment (cs : List Char) : Except Error (List Char) :=
  match cs with
  | '#' :: rest =>
    let (line, rest) := rest.span (· != '\n')
    if line.any isIllegal then .error .malformed else .ok rest
  | cs => .ok cs

/-- The characters after white space, line feeds and comments. -/
def skipFiller : Nat → List Char → Except Error (List Char)
  | 0, cs => .ok cs
  | fuel + 1, cs =>
    match cs.dropWhile fun c => isBlank c || c == '\n' with
    | '#' :: rest => do skipFiller fuel (← skipComment ('#' :: rest))
    | rest => .ok rest

/-- Whether later keys of the same table may not reach into a value. -/
def isClosed : Json → Bool
  | .array _ | .object _ => true
  | _ => false

/-- The part of a key that names the value, and the parts before it. -/
def splitKey (key : Key) : Key × String := (key.dropLast, key.getLast?.getD "")

mutual

/-- Reads a value. Each level of a value takes a character and at most three units of fuel. -/
def readValue : Nat → List Char → Except Error (Json × List Char)
  | 0, _ => .error .malformed
  | fuel + 1, cs =>
    match cs with
    | '[' :: rest => do
      match ← skipFiller rest.length rest with
      | ']' :: rest => return (.array [], rest)
      | rest => readItems fuel [] rest
    | '\x7b' :: rest =>
      match skipBlanks rest with
      | '\x7d' :: rest => .ok (.object [], rest)
      | rest => readMembers fuel (.object []) [] rest
    | _ => readScalar cs

/-- Reads the rest of an array, with `acc` the items before, last first. -/
def readItems : Nat → List Json → List Char → Except Error (Json × List Char)
  | 0, _, _ => .error .malformed
  | fuel + 1, acc, cs => do
    let (v, rest) ← readValue fuel cs
    match ← skipFiller rest.length rest with
    | ']' :: rest => return (.array (v :: acc).reverse, rest)
    | ',' :: rest =>
      match ← skipFiller rest.length rest with
      | ']' :: rest => return (.array (v :: acc).reverse, rest)
      | rest => readItems fuel (v :: acc) rest
    | _ => throw .malformed

/-- Reads the rest of an inline table, with the members before. -/
def readMembers : Nat → Json → Marks → List Char → Except Error (Json × List Char)
  | 0, _, _, _ => .error .malformed
  | fuel + 1, table, marks, cs => do
    let (key, v, rest) ← readPair fuel cs
    if marks.has key .frozen then throw .malformed
    let (parents, name) := splitKey key
    let table ← atKey false (addMember name v) parents table
    match skipBlanks rest with
    | '\x7d' :: rest => return (table, rest)
    | ',' :: rest =>
      let marks := if isClosed v then (key, .frozen, true) :: marks else marks
      readMembers fuel table marks (skipBlanks rest)
    | _ => throw .malformed

/-- Reads a key and its value. -/
def readPair : Nat → List Char → Except Error (Key × Json × List Char)
  | 0, _ => .error .malformed
  | fuel + 1, cs => do
    let (key, rest) ← readKey (cs.length + 1) cs
    match rest with
    | '=' :: rest => do
      let (v, rest) ← readValue fuel (skipBlanks rest)
      return (key, v, rest)
    | _ => throw .malformed

end

/-! ## Statements -/

/-- A file that is being read. -/
structure Document where
  table : Json
  marks : Marks
  /-- Marks that hold from the next header on. -/
  pending : List Key
  /-- The key of the table that the last header opened. -/
  header : Key

namespace Document

/-- A file of which nothing was read. -/
def empty : Document := ⟨.object [], [], [], []⟩

/-- Lets the pending marks hold. -/
def settle (d : Document) : Document :=
  { d with marks := d.pending.map (·, .opened, false) ++ d.marks, pending := [] }

/-- Opens the table of a header. -/
def openTable (d : Document) (key : Key) : Except Error Document := do
  if d.marks.has key .opened || d.marks.has key .frozen then throw .malformed
  let table ← atKey true .ok key d.table
  return { d with table, marks := (key, .opened, false) :: d.marks, header := key }

/-- Opens a new table in the list of a header. -/
def openItem (d : Document) (key : Key) : Except Error Document := do
  if d.marks.has key .frozen then throw .malformed
  let (parents, name) := splitKey key
  let table ← atKey true (addTable name) parents d.table
  return { d with table, marks := (key, .opened, false) :: d.marks.clear key, header := key }

/-- The keys of the tables that a dotted key goes through, below the header. -/
def dotted (header key : Key) : List Key :=
  (List.range (key.length - 1)).map fun i => header ++ key.take (i + 1)

/-- Sets a key below the header. -/
def set (d : Document) (key : Key) (v : Json) : Except Error Document := do
  let through := dotted d.header key
  if through.any (d.marks.has · .opened) then throw .malformed
  let (parents, name) := splitKey (d.header ++ key)
  if d.marks.has parents .frozen then throw .malformed
  let table ← atKey true (addMember name v) parents d.table
  let marks := if isClosed v then (d.header ++ key, .frozen, true) :: d.marks else d.marks
  return { d with table, marks, pending := d.pending ++ through }

/-- Reads a header after its first bracket. -/
def readHeader (d : Document) (cs : List Char) : Except Error (Document × List Char) := do
  let d := d.settle
  match cs with
  | '[' :: rest => do
    let (key, rest) ← readKey (rest.length + 1) (skipBlanks rest)
    let d ← d.openItem key
    match rest with
    | ']' :: ']' :: rest => return (d, rest)
    | _ => throw .malformed
  | _ => do
    let (key, rest) ← readKey (cs.length + 1) (skipBlanks cs)
    let d ← d.openTable key
    match rest with
    | ']' :: rest => return (d, rest)
    | _ => throw .malformed

/-- Reads one statement, if the line has one. -/
def readStatement (d : Document) (cs : List Char) : Except Error (Document × List Char) :=
  match cs with
  | '[' :: rest => d.readHeader rest
  | c :: _ =>
    if isBareKeyChar c || c == '"' || c == '\'' then do
      let (key, v, rest) ← readPair (3 * cs.length + 3) cs
      return (← d.set key v, rest)
    else if c == '#' || c == '\n' then .ok (d, cs)
    else .error .malformed
  | [] => .ok (d, [])

/-- Reads the lines of a file. Each takes a character, so a fuel of the count of characters is never used
up. -/
def readLines : Nat → Document → List Char → Except Error Document
  | 0, d, _ => .ok d
  | fuel + 1, d, cs => do
    let (d, rest) ← d.readStatement (skipBlanks cs)
    match ← skipComment (skipBlanks rest) with
    | [] => return d
    | '\n' :: rest => readLines fuel d rest
    | _ => throw .malformed

end Document

/-- The characters of a file, with the carriage return before a line feed left out. -/
def lineFeeds : List Char → List Char
  | '\r' :: '\n' :: cs => '\n' :: lineFeeds cs
  | c :: cs => c :: lineFeeds cs
  | [] => []

/-- Reads a settings file as a table. -/
def parse (text : String) : Except Error Json := do
  let cs := lineFeeds text.toList
  let d ← Document.empty.readLines (cs.length + 1) cs
  return d.table

end Bindgen.Config.Toml
