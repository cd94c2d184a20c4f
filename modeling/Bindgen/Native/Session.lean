import Bindgen.Native.Buffer
import Bindgen.Wire.Value

/-!
# Sessions with a native library

A binding calls the native library and holds objects that the library owns. A `Session` is where that takes
place: the answers the library is going to give, a record of everything that was asked of it, and the objects
under their labels. What is done in a session is an `Action`; a fault does not undo what was done before it.
-/

namespace Bindgen.Native

open Wire

/-- What is passed to the native library, and what it returns. -/
inductive Passed where
  | buffer (b : Buffer)
  | value (v : Value)

/-- What was asked of the native library. -/
inductive Request where
  /-- A copy of bytes in native memory, with the copy. -/
  | copied (bytes : List UInt8) (copy : Buffer)
  /-- To free a buffer. -/
  | freed (b : Buffer)
  /-- A call of a symbol, with or without an error record. -/
  | called (symbol : String) (args : List Passed) (hasRecord : Bool)
  /-- To release a handle, by a symbol. -/
  | released (symbol : String) (handle : Value)

/-- The answers that a native library is going to give. -/
structure Answers where
  /-- What a call returns. -/
  result : Passed
  /-- The code that a call puts into its error record. -/
  code : Int
  /-- The message that a call puts into its error record. -/
  message : Buffer
  /-- How the copies differ from what is asked for, one after another; later ones are exact. -/
  copies : List Deviation
  /-- The handles whose release fails. -/
  failing : List Value

/-- A library that returns nothing, reports nothing and copies exactly. -/
def Answers.plain : Answers := ⟨.value .none, 0, .borrowed [], [], []⟩

/-- An object that is held. -/
structure Holding where
  cls : ObjectClass
  /-- The handle, until it is given back. -/
  handle : Option Value

/-- A session. -/
structure Session where
  answers : Answers
  requests : List Request
  /-- The objects under their labels. -/
  objects : List (String × Holding)
  /-- How many objects got a label of their own. -/
  labels : Nat

/-- A session in which nothing has happened. -/
def Session.start : Session := ⟨.plain, [], [], 0⟩

/-- What is done in a session: it ends in a result or a fault, and changes the session either way. -/
abbrev Action := ExceptT Fault (StateM Session)

namespace Action

/-- A result or fault as an action. -/
def ofExcept (r : Except Fault α) : Action α :=
  match r with
  | .ok a => pure a
  | .error f => throw f

/-- What comes of an action, as a result or fault. -/
def attempt (action : Action α) : Action (Except Fault α) :=
  tryCatch (.ok <$> action) fun f => pure (.error f)

/-- Records a request. -/
def record (e : Request) : Action Unit :=
  modify fun s => { s with requests := s.requests ++ [e] }

/-- Asks for a copy of bytes in native memory. -/
def copy (view : View) : Action Buffer := do
  let s ← get
  let b := (s.answers.copies.headD .none).apply view.contents
  set { s with answers := { s.answers with copies := s.answers.copies.tail } }
  record (.copied view.contents b)
  return b

/-- Has a buffer freed. -/
def free (b : Buffer) : Action Unit :=
  record (.freed b)

/-- Whether something can be passed: a tuple cannot. -/
def isPassable : Passed → Bool
  | .buffer _ => true
  | .value v => !v.hasTuple

/-- Calls a symbol. -/
def invoke (symbol : String) (args : List Passed) (hasRecord : Bool) : Action Passed := do
  if !args.all isPassable then throw .unsupported
  record (.called symbol args hasRecord)
  return (← get).answers.result

/-- Has a handle released by the symbol for that. -/
def release (symbol : String) (handle : Value) : Action Unit := do
  record (.released symbol handle)
  if (← get).answers.failing.any (handle.same ·) then throw .releaseFailed

end Action

end Bindgen.Native
