import Bindgen.Text.CaseTable

/-!
# Upper case

`upper` maps a text character by character to upper case, by the full mapping of Unicode: a character
whose upper case is longer (`ß`) is replaced by all of it (`SS`). The mapping looks at one character at
a time, so it distributes over concatenation (`upper_append`).
-/

namespace Bindgen.Text

/-- The upper case of a code point from 128 on, by the table of runs. -/
def upperByRuns (n : Nat) : List (Nat × Nat × Nat × Nat) → Nat
  | [] => n
  | (first, last, step, image) :: rest =>
    if first ≤ n ∧ n ≤ last ∧ (n - first) % step = 0 then image + (n - first)
    else upperByRuns n rest

/-- The upper case of one character. -/
def upperChar (c : Char) : List Char :=
  if c.toNat < 128 then [c.toUpper]
  else match CaseTable.expansions.lookup c.toNat with
    | some cs => cs.map Char.ofNat
    | none => [Char.ofNat (upperByRuns c.toNat CaseTable.runs)]

/-- The upper case of a list of characters. -/
def upperChars (cs : List Char) : List Char :=
  cs.flatMap upperChar

/-- The upper case of a text. -/
def upper (s : String) : String :=
  String.ofList (upperChars s.toList)

theorem upperChars_append (a b : List Char) : upperChars (a ++ b) = upperChars a ++ upperChars b := by
  simp [upperChars]

theorem upper_append (a b : String) : upper (a ++ b) = upper a ++ upper b := by
  simp [upper, upperChars_append]

end Bindgen.Text
