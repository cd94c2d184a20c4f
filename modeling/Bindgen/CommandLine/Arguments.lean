import Bindgen.Text.Digit

/-!
# Command line arguments

`Arguments.parse` reads the arguments of a run: one model file and options around it. A long option may be
cut short as long as it stays the only one, and takes its value after `=` or as the next argument. A short
one takes it there too, or right behind its letter, and short ones without a value may be put together.
After `--` everything is a word. A value that is `--` itself, behind its option, is taken for nothing.

Arguments are first sorted into `Piece`s, and an option that could be several is an error there. Then the
pieces are taken in order, so that of two faults, or of a fault and a plea for help, the first one counts.
-/

namespace Bindgen.CommandLine

/-- Why there is no run. -/
inductive Stop where
  /-- Help was asked for. -/
  | help
  /-- The arguments are wrong. -/
  | usage
  deriving DecidableEq, Repr

/-- Options without a value. -/
inductive Switch where
  | help
  | verbose
  | quiet
  deriving DecidableEq, Repr

/-- Options with a value. -/
inductive Valued where
  | outDir
  | backend
  | ns
  | library
  | apiMacro
  | kotlinPackage
  | config
  deriving DecidableEq, Repr

/-- An option. -/
abbrev Opt := Switch ⊕ Valued

/-- The spellings of the options. -/
def spellings : List (String × Opt) :=
  [("-h", .inl .help), ("--help", .inl .help),
   ("--output-dir", .inr .outDir), ("-o", .inr .outDir),
   ("--backend", .inr .backend),
   ("--namespace", .inr .ns), ("-n", .inr .ns),
   ("--library-name", .inr .library),
   ("--api-macro", .inr .apiMacro),
   ("--kotlin-package", .inr .kotlinPackage),
   ("--config", .inr .config),
   ("--verbose", .inl .verbose), ("-v", .inl .verbose),
   ("--quiet", .inl .quiet), ("-q", .inl .quiet)]

/-- The backends that can be asked for. -/
def backendChoices : List String := ["c", "kotlin", "python"]

/-! ## Pieces -/

/-- What an option with a value is given: a text, or nothing. -/
abbrev Given := Option String

/-- What stands behind an option, where the mark `--` is nothing. -/
def givenBehind (cs : List Char) : Given :=
  if cs = ['-', '-'] then none else some (String.ofList cs)

/-- What an option does: turn a switch, or set a value, which may still have to come. -/
inductive Take where
  | turn (s : Switch)
  | value (v : Valued) (given : Option Given)
  deriving DecidableEq, Repr

/-- One argument, sorted. -/
inductive Piece where
  /-- A word stands by itself, or is a value. -/
  | word (text : String)
  /-- The mark after which everything is a word. -/
  | separator
  /-- An option, or several in one. Nothing is there if they make no sense. -/
  | options (takes : Option (List Take))
  /-- What looks like an option and is none. -/
  | unknown
  deriving DecidableEq, Repr

/-- What a letter does with more characters right behind it: they are its value, or more letters. They make
no sense if one that should be a letter of an option is none. -/
def expandLetters : Opt → List Char → Option (List Take)
  | .inr v, [] => some [.value v none]
  | .inr v, text => some [.value v (some (givenBehind text))]
  | .inl s, [] => some [.turn s]
  | .inl s, c :: rest =>
    (spellings.lookup (String.ofList ['-', c])).bind fun o => (expandLetters o rest).map (.turn s :: ·)

/-- What an option does that is spelled out, with what stands behind its equals sign if there is one. Behind
a letter that takes no value, more letters may stand there. -/
def expand (isLetter : Bool) : Opt → Option (List Char) → Option (List Take)
  | .inr v, text => some [.value v (text.map givenBehind)]
  | .inl s, none => some [.turn s]
  | .inl _, some [] => none
  | .inl s, some text => if isLetter then expandLetters (.inl s) text else none

/-- A text before and after its first `=`. -/
def cutAtEquals (cs : List Char) : List Char × Option (List Char) :=
  match cs.span (· != '=') with
  | (front, _ :: rest) => (front, some rest)
  | (front, []) => (front, none)

/-- The options that `cs`, which begins with a dash and is no spelling, can stand for. -/
def readings (cs : List Char) : List (Option (List Take)) :=
  match cs with
  | '-' :: '-' :: _ =>
    let (front, text) := cutAtEquals cs
    (spellings.filter fun (spelling, _) => front.isPrefixOf spelling.toList).map fun (_, o) =>
      expand false o text
  | d :: c :: rest =>
    (spellings.filter fun (spelling, _) => spelling.toList == [d, c]).map fun (_, o) =>
      expandLetters o rest
  | _ => []

/-- Whether a text is a negative number, which is a word. A line may end behind it. -/
def isNegativeNumber (cs : List Char) : Bool :=
  match cs with
  | '-' :: rest =>
    match rest.span Text.isDigit with
    | (ds, []) | (ds, ['\n']) => !ds.isEmpty
    | (_, '.' :: fraction) =>
      match fraction.span Text.isDigit with
      | (ds, []) | (ds, ['\n']) => !ds.isEmpty
      | _ => false
    | _ => false
  | _ => false

/-- Sorts one argument. -/
def sort (arg : String) : Except Stop Piece :=
  match arg.toList with
  | '-' :: c :: rest =>
    match spellings.lookup arg with
    | some o => .ok (.options (expand (c != '-') o none))
    | none =>
      let (front, text) := cutAtEquals ('-' :: c :: rest)
      match text, spellings.lookup (String.ofList front) with
      | some text, some o => .ok (.options (expand (c != '-') o (some text)))
      | _, _ =>
        match readings ('-' :: c :: rest) with
        | [takes] => .ok (.options takes)
        | [] =>
          if isNegativeNumber ('-' :: c :: rest) || rest.contains ' ' || c == ' ' then .ok (.word arg)
          else .ok .unknown
        | _ => .error .usage
  | _ => .ok (.word arg)

/-- Sorts all arguments. -/
def sortAll : List String → Except Stop (List Piece)
  | [] => .ok []
  | arg :: rest =>
    if arg = "--" then .ok (.separator :: rest.map .word)
    else do
      let p ← sort arg
      return p :: (← sortAll rest)

/-! ## Arguments -/

/-- The arguments of a run. -/
structure Arguments where
  model : Option String
  outDir : Option Given
  backends : Option (List Given)
  ns : Option Given
  library : Option Given
  apiMacro : Option Given
  kotlinPackage : Option Given
  config : Option Given
  verbose : Bool
  quiet : Bool
  /-- Whether something was left over. -/
  extra : Bool
  deriving DecidableEq, Repr

namespace Arguments

/-- No arguments. -/
def empty : Arguments := ⟨none, none, none, none, none, none, none, none, false, false, false⟩

/-- Turns a switch. -/
def turn (a : Arguments) : Switch → Except Stop Arguments
  | .help => .error .help
  | .verbose => if a.quiet then .error .usage else .ok { a with verbose := true }
  | .quiet => if a.verbose then .error .usage else .ok { a with quiet := true }

/-- Sets a value. -/
def setValue (a : Arguments) (v : Valued) (given : Given) : Except Stop Arguments :=
  match v with
  | .outDir => .ok { a with outDir := some given }
  | .backend =>
    if given.all (· ∈ backendChoices) then
      .ok { a with backends := some (a.backends.getD [] ++ [given]) }
    else .error .usage
  | .ns => .ok { a with ns := some given }
  | .library => .ok { a with library := some given }
  | .apiMacro => .ok { a with apiMacro := some given }
  | .kotlinPackage => .ok { a with kotlinPackage := some given }
  | .config => .ok { a with config := some given }

/-- Does what options do, given the word after them, if one comes next. -/
def takeAll (word : Option String) : Arguments → List Take → Except Stop Arguments
  | a, [] => .ok a
  | a, .turn s :: rest => do takeAll word (← a.turn s) rest
  | a, .value v given :: rest =>
    match given, word with
    | some given, _ => do takeAll word (← a.setValue v given) rest
    | none, some text => do takeAll word (← a.setValue v (some text)) rest
    | none, none => .error .usage

/-- Whether options still have to get a value. -/
def needsWord (takes : List Take) : Bool :=
  takes.any fun
    | .value _ none => true
    | _ => false

/-- Takes a word, which is the model file unless there is one already. -/
def takeWord (a : Arguments) (text : String) : Arguments :=
  if a.model.isNone then { a with model := some text } else { a with extra := true }

/-- Takes pieces in order. A mark beside a word goes with it. -/
def takePieces : Arguments → List Piece → Except Stop Arguments
  | a, [] => .ok a
  | a, .word text :: .separator :: rest => takePieces (a.takeWord text) rest
  | a, .word text :: rest => takePieces (a.takeWord text) rest
  | a, .separator :: .word text :: rest => takePieces (a.takeWord text) rest
  | a, .separator :: rest => takePieces { a with extra := true } rest
  | a, .unknown :: rest => takePieces { a with extra := true } rest
  | _, .options none :: _ => .error .usage
  | a, .options (some takes) :: .word text :: rest =>
    if needsWord takes then do takePieces (← takeAll (some text) a takes) rest
    else do takePieces (← takeAll none a takes) (.word text :: rest)
  | a, .options (some takes) :: rest =>
    if needsWord takes then .error .usage
    else do takePieces (← takeAll none a takes) rest

/-- Reads arguments. -/
def parse (args : List String) : Except Stop Arguments := do
  let a ← takePieces empty (← sortAll args)
  if a.model.isNone || a.extra then throw .usage
  return a

end Arguments

end Bindgen.CommandLine
