import Bindgen.Text.PrintTable
import Bindgen.Text.WordTable

/-!
# Character classes

Three classes of characters: `isWordChar` (what a name is made of), `isBlank` (what separates tokens)
and `isPrintable` (what a quoted literal shows as itself).

Main statement: `isBlank_of_isWhitespace`, the usual white space is blank.
-/

namespace Bindgen.Text

/-- A letter or number of any script, or the low line. -/
def isWordChar (c : Char) : Bool :=
  c == '_' || WordTable.letterOrNumber.mem c.toNat

/-- The white space of Unicode together with the four information separators U+001C to U+001F. -/
def blank : CodeSet :=
  ⟨[9, 14, 28, 33, 133, 134, 160, 161, 5760, 5761, 8192, 8203, 8232, 8234, 8239, 8240, 8287, 8288,
    12288, 12289]⟩

/-- Whether a character separates tokens. -/
def isBlank (c : Char) : Bool :=
  blank.mem c.toNat

/-- Whether a character shows when printed. -/
def isPrintable (c : Char) : Bool :=
  PrintTable.printable.mem c.toNat

theorem isBlank_of_isWhitespace {c : Char} (h : c.isWhitespace = true) : isBlank c = true := by
  simp only [Char.isWhitespace, Bool.or_eq_true, decide_eq_true_eq] at h
  rcases h with ((rfl | rfl) | rfl) | rfl <;> rfl

end Bindgen.Text
