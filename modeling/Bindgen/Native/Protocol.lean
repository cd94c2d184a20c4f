import Bindgen.Native.Session
import Bindgen.Text.Quoted
import Bindgen.Wire.Codec

/-!
# The calling protocol

Values travel in buffers. Lent buffers stay with the caller. Consumed ones are copied into native memory
(`lowerOwned`), and are freed here if anything goes wrong before the call. A buffer that the native library
returns is read and freed (`lift`). A call that can fail has an error record, which is looked at after it
(`checkStatus`).
-/

namespace Bindgen.Native

open Wire

/-- A class of the variants of an error. -/
structure ErrorVariant where
  className : String
  /-- The code that its errors show, unless a field hides it. -/
  code : Option Int
  /-- What stands in the way of making one without fields. -/
  obstacle : Option Fault

/-- A class of errors that a call can report. -/
structure ErrorClass where
  name : String
  /-- The classes of the codes. -/
  variants : List (Int × ErrorVariant)
  /-- What stands in the way of making any error. -/
  obstacle : Option Fault

namespace ErrorClass

/-- The class of a name whose variants have the codes given; of two with one code the last one counts. -/
def ofCodes (name : String) (codes : List (Int × String)) : ErrorClass :=
  ⟨name, codes.reverse.map fun (code, className) => (code, ⟨className, some code, none⟩), none⟩

/-- The error of a code: of the class of that code, or of the class as a whole. -/
def fromCode (e : ErrorClass) (code : Int) (message : String) : Fault :=
  match e.obstacle, e.variants.lookup code with
  | some f, _ => f
  | none, some v => v.obstacle.getD (.declared v.className ((v.code.map .number).getD .unset) message)
  | none, none => .declared e.name (.number code) message

end ErrorClass

/-- An error as it is shown: its class, code and message. -/
def errorText (className : String) (code : Int) (message : String) : String :=
  s!"{className}(code={code}, message=" ++ Text.quoted message ++ ")"

/-- Whether a copy is sound and as long as what was copied. -/
def checkCopy (expected : Nat) (b : Buffer) : Except Fault Unit := do
  b.check
  if b.len ≠ expected then throw (.internal (.copyMismatch b.len expected))

/-- An encoded value in a lent buffer. -/
def lowerBorrowed (encode : Action (List UInt8)) : Action Buffer :=
  Buffer.borrowed <$> encode

/-- An encoded value in native memory. A copy that cannot be used is freed. -/
def lowerOwned (encode : Action (List UInt8)) : Action Buffer := do
  let bytes ← encode
  let b ← Action.copy (.borrowed bytes)
  match checkCopy bytes.length b with
  | .ok () => return b
  | .error f => do
    Action.free b
    throw f

/-- Encodes some values into native memory, after the ones that are held already. If one fails, those held
are freed. -/
def lowerOwnedAfter : List Buffer → List (Action (List UInt8)) → Action (List Buffer)
  | held, [] => return held
  | held, encode :: rest => do
    match ← Action.attempt (lowerOwned encode) with
    | .ok b => lowerOwnedAfter (held ++ [b]) rest
    | .error f => do
      held.forM Action.free
      throw f

/-- Encodes some values into native memory, all of them or none. -/
def lowerOwnedAll (encodes : List (Action (List UInt8))) : Action (List Buffer) :=
  lowerOwnedAfter [] encodes

/-- The value in a buffer that the native library returned. The buffer is freed in any case. -/
def lift (decode : List UInt8 → Action Value) (b : Buffer) : Action Value := do
  Action.free b
  decode (← Action.ofExcept b.read)

/-- The text of the message in an error record, which is freed if there is one. -/
def messageText (message : Buffer) : Action String := do
  if message.capacity = 0 then return ""
  Action.free message
  return Text.Utf8.decodeLossy (← Action.ofExcept message.read)

/-- Looks at an error record after a call. A code has 32 bits. -/
def checkStatus (code : Int) (message : Buffer) (e : ErrorClass) : Action Unit := do
  let code := wrap32 code
  if code = successCode then return
  let text ← messageText message
  if code = unexpectedCode then throw (.internal (.reported text))
  throw (e.fromCode code text)

/-- Calls a symbol, with an error record if the call can fail. -/
def call (symbol : String) (args : List Passed) (error : Option ErrorClass) : Action Passed := do
  let result ← Action.invoke symbol args error.isSome
  match error with
  | none => return result
  | some e => do
    let answers := (← get).answers
    checkStatus answers.code answers.message e
    return result

end Bindgen.Native
