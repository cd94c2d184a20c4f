/-!
# Numbers and names that both sides agree on

An error record holds a code: zero for success, minus one for an unexpected failure, and from one on the variants
of the declared error. In the encoding of values the variants have the same numbers, and an optional value begins
with a tag. The receiver of a method is passed as an argument of a fixed name.
-/

namespace Bindgen

/-- The code of a call that succeeded. -/
def successCode : Int := 0

/-- The code of a failure that no declared error covers, such as a breach of the protocol. -/
def unexpectedCode : Int := -1

/-- The byte before an absent optional value. -/
def absentTag : UInt8 := 0

/-- The byte before a present optional value. -/
def presentTag : UInt8 := 1

/-- The number of the first variant, as an index and as an error code. -/
def firstVariant : Nat := 1

/-- The name of the receiver argument of a method. -/
def receiverName : String := "handle"

end Bindgen
