/-!
# Reserved words of the target languages

An interface name may be a reserved word of a language it is generated into. Each target has its list and
its way out: Python names get a low line at the end, Kotlin names are put between back quotes.
-/

namespace Bindgen.Identifier

/-- The keywords of Python. -/
def pythonKeywords : List String :=
  ["False", "None", "True", "and", "as", "assert", "async", "await", "break", "class", "continue",
   "def", "del", "elif", "else", "except", "finally", "for", "from", "global", "if", "import", "in",
   "is", "lambda", "nonlocal", "not", "or", "pass", "raise", "return", "try", "while", "with", "yield"]

/-- The hard keywords of Kotlin. -/
def kotlinKeywords : List String :=
  ["as", "break", "class", "continue", "do", "else", "false", "for", "fun", "if", "in", "interface",
   "is", "null", "object", "package", "return", "super", "this", "throw", "true", "try", "typealias",
   "typeof", "val", "var", "when", "while"]

/-- A name as a Python identifier that is no keyword. -/
def escapePython (name : String) : String :=
  if name ∈ pythonKeywords then name ++ "_" else name

/-- A name as a Kotlin identifier: hard keywords are back-quoted. -/
def escapeKotlin (name : String) : String :=
  if name ∈ kotlinKeywords then "`" ++ name ++ "`" else name

end Bindgen.Identifier
