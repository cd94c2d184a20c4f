import Bindgen.Wire.Value

/-!
# Faults of a running binding

What can go wrong when values cross the boundary: the native side breaks the protocol (`internal`), it
reports a failure that its interface declares (`declared`), or the caller passes what cannot be passed.
`Fault.message` is the wording.
-/

namespace Bindgen

open Wire

/-- What a converter or wrapper uses that does not belong to its module. The module may take its name. -/
inductive Builtin where
  /-- What tells the class of a value. -/
  | classOf
  /-- The error that refuses a value. -/
  | typeError
  /-- What tells whether a value is an instance of a class. -/
  | isInstance
  /-- What finds the class of all errors. -/
  | parent

/-- The name of a builtin. -/
def Builtin.name : Builtin → String
  | classOf => "type"
  | typeError => "TypeError"
  | isInstance => "isinstance"
  | parent => "super"

/-- How the native side breaks the protocol. -/
inductive Breach where
  /-- More bytes are asked for than there are, at an offset. -/
  | underflow (size : Int) (offset : Nat)
  /-- Bytes are left over. -/
  | junk (count : Nat)
  | invalidBoolean (shown : String)
  | invalidText
  | invalidOptionalTag (tag : Int)
  | negativeSequence (count : Int)
  | negativeMap (count : Int)
  | invalidVariant (choice : String) (index : Int)
  | nullHandle
  /-- The lengths of a buffer contradict each other. -/
  | invalidLengths (capacity len : Int) (hasData : Bool)
  /-- A buffer has memory and no capacity, or the other way round. -/
  | dataMismatch (capacity len : Int) (hasData : Bool)
  /-- A copy is not as long as what was copied. -/
  | copyMismatch (held expected : Int)
  /-- The native side says itself that it failed unexpectedly. -/
  | reported (message : String)
  deriving DecidableEq, Repr

/-- A buffer in a message. -/
def bufferText (capacity len : Int) (hasData : Bool) : String :=
  let data := if hasData then "True" else "False"
  s!"BufferRecord(capacity={capacity}, len={len}, data={data})"

/-- The wording of a breach. -/
def Breach.message : Breach → String
  | underflow size offset => s!"buffer underflow reading {size} bytes at offset {offset}"
  | junk count => s!"junk remaining in buffer after lifting ({count} bytes)"
  | invalidBoolean shown => s!"invalid boolean byte {shown}"
  | invalidText => "invalid UTF-8 text"
  | invalidOptionalTag tag => s!"invalid optional tag {tag}"
  | negativeSequence count => s!"negative sequence length {count}"
  | negativeMap count => s!"negative map length {count}"
  | invalidVariant choice index => s!"invalid {choice} variant index {index}"
  | nullHandle => "native core returned a null handle"
  | invalidLengths capacity len hasData =>
    "invalid buffer lengths: " ++ bufferText capacity len hasData
  | dataMismatch capacity len hasData =>
    "buffer data does not match capacity: " ++ bufferText capacity len hasData
  | copyMismatch held expected => s!"native copy holds {held} bytes, expected {expected}"
  | reported message => message

/-- What a reported failure shows as its code. -/
inductive FailureCode where
  | number (n : Int)
  | text (s : String)
  /-- Nothing, where the class has a field of that name. -/
  | unset
  deriving DecidableEq, Repr

/-- What stops an operation of a running binding. -/
inductive Fault where
  /-- The native side broke the protocol. -/
  | internal (b : Breach)
  /-- The native side reported a failure of a class of errors. -/
  | declared (className : String) (code : FailureCode) (message : String)
  /-- A value has the wrong type. -/
  | expected (what got : String)
  /-- A value is not of the class of a definition. -/
  | refused (definition : String) (v : Value) (got : String)
  /-- A value is no real number, and not what one can be made of. -/
  | notReal (got : String)
  /-- A text or bytes do not write a real number. -/
  | notNumeral (shown : String)
  | outOfRange (n low high : Int)
  | unhashable (className : String)
  /-- Nothing can be taken from a value one by one. -/
  | notIterable (got : String)
  | noLength (got : String)
  /-- An item among bytes is no integer. -/
  | notInteger (got : String)
  /-- An item among bytes is no byte. -/
  | notByte
  /-- A text stands where bytes are asked for. -/
  | notEncoded
  /-- A text that is none is to be encoded. -/
  | unencodable (b : Text.Broken)
  | notCallable (got : String)
  /-- A class is called that takes no arguments. -/
  | noArguments (className : String)
  /-- Arguments are missing in a call. -/
  | missing (callee : String) (names : List String)
  /-- A call has more arguments than the most that are taken. -/
  | surplus (callee : String) (least most given : Nat)
  /-- A call has an argument of a name that is not known. -/
  | unexpected (callee name : String)
  /-- A value is no member of an enum. -/
  | notMember (enum shown : String)
  /-- An enum that has members is to be extended. -/
  | notExtensible (shown enum : String)
  /-- An instance is asked for of something that is no class. -/
  | notClass
  /-- What is to be the class of an instance is none. -/
  | notItsClass (got : String)
  /-- What is to hold the fields of an error is no map. -/
  | notItsFields (got : String)
  /-- What has taken the name of a builtin is called, where the builtin is meant. -/
  | diverted (meant : Builtin) (args : List Value)
  /-- A member that every object has is used with a number of arguments, but declared anew in a class. -/
  | overridden (className member : String) (given : Nat)
  /-- What is raised is no error. -/
  | notRaisable
  /-- What is to be caught is no class of errors. -/
  | notCatchable
  | noPrimaryConstructor (className : String)
  | closed (className : String)
  /-- The action that was guarded by an object failed. -/
  | bodyFailed
  /-- Releasing a handle failed. -/
  | releaseFailed
  /-- An integer does not fit the field that it is written to. -/
  | unpackable
  /-- A number is too large for a binary format. -/
  | overflow
  /-- A value is nested more deeply than is followed. -/
  | tooDeep
  /-- No rule says what happens. -/
  | unsupported

/-- Names in a list, the last one after an "and". -/
def namesText (names : List String) : String :=
  let quoted := names.map fun n => "'" ++ n ++ "'"
  match quoted.reverse with
  | [] => ""
  | [a] => a
  | [b, a] => a ++ " and " ++ b
  | last :: front => ", ".intercalate front.reverse ++ ", and " ++ last

/-- The wording for missing arguments. -/
def missingText (callee : String) (names : List String) : String :=
  let noun := if names.length = 1 then "argument" else "arguments"
  s!"{callee}() missing {names.length} required positional {noun}: " ++ namesText names

/-- The wording for too many arguments. -/
def surplusText (callee : String) (least most given : Nat) : String :=
  let takes := if least = most then toString most else s!"from {least} to {most}"
  let noun := if least = most ∧ most = 1 then "argument" else "arguments"
  let verb := if given = 1 then "was" else "were"
  s!"{callee}() takes {takes} positional {noun} but {given} {verb} given"

/-- The wording of a fault. -/
def Fault.message : Fault → String
  | internal b => b.message
  | declared _ _ message => message
  | expected what got | refused what _ got => s!"expected {what}, got {got}"
  | notReal got => s!"float() argument must be a string or a real number, not '{got}'"
  | notNumeral shown => s!"could not convert string to float: {shown}"
  | outOfRange n low high => s!"{n} out of range [{low}, {high}]"
  | unhashable className => s!"unhashable type: '{className}'"
  | notIterable got => s!"'{got}' object is not iterable"
  | noLength got => s!"object of type '{got}' has no len()"
  | notInteger got => s!"'{got}' object cannot be interpreted as an integer"
  | notByte => "bytes must be in range(0, 256)"
  | notEncoded => "string argument without an encoding"
  | unencodable b => b.encodingText
  | notCallable got => s!"'{got}' object is not callable"
  | noArguments className => s!"{className}() takes no arguments"
  | missing callee names => missingText callee names
  | surplus callee least most given => surplusText callee least most given
  | unexpected callee name => s!"{callee}() got an unexpected keyword argument '{name}'"
  | notMember enum shown => s!"{shown} is not a valid {enum}"
  | notExtensible shown enum => s!"<enum {shown}> cannot extend <enum '{enum}'>"
  | notClass => "isinstance() arg 2 must be a type, a tuple of types, or a union"
  | notItsClass got => s!"__class__ must be set to a class, not '{got}' object"
  | notItsFields got => s!"__dict__ must be set to a dictionary, not a '{got}'"
  | notRaisable => "exceptions must derive from BaseException"
  | notCatchable => "catching classes that do not inherit from BaseException is not allowed"
  | noPrimaryConstructor className => s!"{className} has no primary constructor"
  | closed className => s!"{className} has already been closed"
  | bodyFailed => "body failed"
  | releaseFailed => "release failed"
  | diverted .. | overridden .. | unpackable | overflow | tooDeep | unsupported => ""

end Bindgen
