import Bindgen.Boundary.Codes
import Bindgen.Emit.Backend

/-!
# Plans of native calls

A wrapper lowers its arguments and calls the native symbol. A `CallPlan` says how: a slot for each value
argument, with what is lowered there and the local it is bound to. Without consumed buffers the arguments
are lowered in place. With some, everything else is lowered into locals first and the consumed buffers are
copied last, so that a rejected argument leaves no native buffer behind.

The backends print plans, each in its language.
-/

namespace Bindgen.Emit

open Interface Boundary Resolve

/-- What is passed in a slot. -/
inductive Origin where
  /-- The handle of the object whose method is called. -/
  | receiver
  /-- The argument for a parameter. -/
  | param (p : Param)
  deriving DecidableEq, Repr

/-- One value argument of a native call. -/
structure Slot where
  /-- The local that the lowered value is bound to, where it is bound. -/
  target : String
  origin : Origin
  /-- Whether this is a buffer that the native side frees. -/
  owned : Bool
  deriving DecidableEq, Repr

/-- How a wrapper calls its symbol. -/
structure CallPlan where
  symbol : String
  slots : List Slot
  /-- The error that the call may report. -/
  error : Option String
  deriving DecidableEq, Repr

namespace CallPlan

/-- The parameter that a name stands for: the last one of that name. -/
def paramNamed (params : List Param) (p : Param) : Param :=
  (params.reverse.find? (·.name == p.name)).getD p

/-- The slot of a parameter. -/
def slotOf (table : Table) (localName : String → String) (params : List Param) (p : Param) : Slot :=
  let found := paramNamed params p
  ⟨localName p.name, .param found, p.consumed && (table.conversionOf found.type).usesBuffer⟩

/-- The plan of a callable behind `symbol`; `localName` names the local of an argument. -/
def ofCallable (table : Table) (localName : String → String) (symbol : String) (c : Callable) :
    CallPlan :=
  let receiver := if c.kind = .method then [⟨localName receiverName, .receiver, false⟩] else []
  ⟨symbol, receiver ++ c.params.map (slotOf table localName c.params), c.throws.filter (· != "")⟩

/-- The slots lowered first, or in place. -/
def plain (p : CallPlan) : List Slot :=
  p.slots.filter (!·.owned)

/-- The slots of consumed buffers. -/
def owned (p : CallPlan) : List Slot :=
  p.slots.filter (·.owned)

/-- Whether all arguments are lowered in place. -/
def inPlace (p : CallPlan) : Bool :=
  p.owned.isEmpty

/-- What is lowered in place for a slot: of slots that share a local, the last one counts. -/
def inPlaceSlot (p : CallPlan) (s : Slot) : Slot :=
  (p.plain.reverse.find? (·.target == s.target)).getD s

end CallPlan

end Bindgen.Emit
