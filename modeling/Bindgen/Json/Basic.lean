import Bindgen.Text.Points

/-!
# JSON values

A JSON value keeps what a text says: the members of an object in their order, integers exactly, and any other
number as a decimal. What its texts are is left open (`JsonOf`). In a value that is read from JSON they may be
broken, since an escape can stand for a lone surrogate (`Json.Raw`); settings hold values with proper texts (`Json`).
`members?`, `get?` and `truthy` are the views the rest of the library works with.
-/

namespace Bindgen

open Text

/-- A JSON number: an integer as it stands, a number with a fraction or an exponent as
`mantissa * 10 ^ exponent`, and the three values that are no numbers. -/
inductive Json.Number where
  | int (n : Int)
  | decimal (negative : Bool) (mantissa : Nat) (exponent : Int)
  | nan
  | infinity (negative : Bool)
  deriving DecidableEq, Repr

/-- JSON values with texts in `τ`, with the members of an object in order. -/
inductive JsonOf (τ : Type) where
  | null
  | bool (b : Bool)
  | number (n : Json.Number)
  | string (s : τ)
  | array (items : List (JsonOf τ))
  | object (members : List (τ × JsonOf τ))
  deriving Repr

/-- JSON values with proper texts. -/
abbrev Json := JsonOf String

/-- JSON values as they are read. -/
abbrev Json.Raw := JsonOf Str

namespace JsonOf

variable {τ : Type}

/-- An integer as a JSON value. -/
def int (n : Int) : JsonOf τ := number (.int n)

/-- Sets the value of a key in a list of members: the first member of that key takes it, or a new one at
the end. -/
def setMember [DecidableEq τ] (key : τ) (value : JsonOf τ) : List (τ × JsonOf τ) → List (τ × JsonOf τ)
  | [] => [(key, value)]
  | (k, v) :: rest => if k = key then (k, value) :: rest else (k, v) :: setMember key value rest

/-- The member of an object under a key; nothing for any other value. -/
def get? [DecidableEq τ] : JsonOf τ → τ → Option (JsonOf τ)
  | object members, key => members.lookup key
  | _, _ => none

/-- The text of a string value. -/
def string? : JsonOf τ → Option τ
  | string s => some s
  | _ => none

/-- The integer of an integral number. -/
def int? : JsonOf τ → Option Int
  | number (.int n) => some n
  | _ => none

/-- The items of an array. -/
def array? : JsonOf τ → Option (List (JsonOf τ))
  | array items => some items
  | _ => none

/-- The members of an object. -/
def members? : JsonOf τ → Option (List (τ × JsonOf τ))
  | object members => some members
  | _ => none

end JsonOf

namespace Json

/-- Whether a decimal is so small that the nearest binary double is zero: it is at most half of the least
positive double, `2 ^ -1075`. Below `10 ^ -400` that needs no calculation. -/
def Number.vanishes (mantissa : Nat) (exponent : Int) : Bool :=
  mantissa == 0 ||
    match exponent with
    | .ofNat _ => false
    | .negSucc k =>
      let digits := (Nat.toDigits 10 mantissa).length
      if digits + 400 < k then true
      else if k < 300 then false
      else mantissa.shiftLeft 1075 ≤ Nat.pow 10 (k + 1)

end Json

/-- Whether a value counts as true where a truth value is asked for: everything but null, false, zero and
what is empty, which is `default` among the texts. -/
def JsonOf.truthy {τ : Type} [DecidableEq τ] [Inhabited τ] : JsonOf τ → Bool
  | null => false
  | bool b => b
  | number (.int n) => n != 0
  | number (.decimal _ m e) => !Json.Number.vanishes m e
  | number _ => true
  | string s => s != default
  | array items => !items.isEmpty
  | object members => !members.isEmpty

end Bindgen
