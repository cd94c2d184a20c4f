import Bindgen.Native.Session
import Bindgen.Wire.Codec

/-!
# Objects of a session

An object owns a handle until it is closed, and closing it has the handle released. Objects are known by
labels: those that the caller chooses, and `r1`, `r2` and so on for those that turn up in results.
-/

namespace Bindgen.Native

open Wire

/-- Sets what is held under a label. -/
def putObject (label : String) (o : Holding) : List (String × Holding) → List (String × Holding)
  | [] => [(label, o)]
  | (l, p) :: rest => if l = label then (l, o) :: rest else (l, p) :: putObject label o rest

namespace Action

/-- The object under a label. -/
def object (label : String) : Action Holding := do
  match (← get).objects.lookup label with
  | some o => return o
  | none => throw .unsupported

/-- Holds an object under a label. -/
def hold (label : String) (o : Holding) : Action Unit :=
  modify fun s => { s with objects := putObject label o s.objects }

/-- Forgets a label. -/
def forget (label : String) : Action Unit :=
  modify fun s => { s with objects := s.objects.filter (·.1 != label) }

/-- The value that an object is. -/
def valueOf (label : String) : Action Value := do
  let o ← object label
  return .object o.cls o.handle (some label)

/-- The handle of an object that is not closed. -/
def requireHandle (label : String) : Action Value := do
  ofExcept (← valueOf label).handle

/-- Closes an object: its handle, if it still has one, is taken from it and then released. -/
def close (release : ObjectClass → Value → Action Unit) (label : String) : Action Unit := do
  let o ← object label
  hold label { o with handle := none }
  match o.handle with
  | some handle => release o.cls handle
  | none => return

/-- Ends the life of an object, which is closed by `close`. Nobody learns of a fault in that. -/
def drop (close : Action Unit) (label : String) : Action Unit := do
  let _ ← object label
  let _ ← attempt close
  forget label

/-- Works with the handle of an object, which is closed by `close` afterwards in any case. -/
def withHandle (close : Action Unit) (label : String) (body : Value → Action α) : Action α := do
  let result ← attempt (do body (← requireHandle label))
  close
  ofExcept result

/-- The next label for an object in a result. -/
def nextLabel : Action String := do
  let n := (← get).labels + 1
  modify fun s => { s with labels := n }
  return "r" ++ toString n

end Action

mutual

/-- Holds the objects in a value that nobody holds yet, under labels of their own. No result is a tuple or has
one in it. -/
def adopt : Value → Action Value
  | .list xs => .list <$> adoptAll xs
  | .tuple _ => throw .unsupported
  | .map entries => .map <$> adoptEntries entries
  | .instance cls fields => .instance cls <$> adoptFields fields
  | .failure cls code message fields => .failure cls code message <$> adoptFields fields
  | .object cls handle none => do
    let label ← Action.nextLabel
    Action.hold label ⟨cls, handle⟩
    return .object cls handle (some label)
  | v => return v

/-- Holds the objects in some values. -/
def adoptAll : List Value → Action (List Value)
  | [] => return []
  | v :: vs => do
    let v ← adopt v
    return v :: (← adoptAll vs)

/-- Holds the objects in the entries of a map. -/
def adoptEntries : List (Value × Value) → Action (List (Value × Value))
  | [] => return []
  | (k, v) :: rest => do
    let k ← adopt k
    let v ← adopt v
    return (k, v) :: (← adoptEntries rest)

/-- Holds the objects in some fields. -/
def adoptFields : List (String × Value) → Action (List (String × Value))
  | [] => return []
  | (name, v) :: rest => do
    let v ← adopt v
    return (name, v) :: (← adoptFields rest)

end

end Bindgen.Native
