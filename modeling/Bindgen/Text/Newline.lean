/-!
# Line ends

A text file is read with every line end turned into a line feed: `toLineFeeds` maps a carriage return with
the line feed after it, and a lone carriage return, to one line feed. A text without a carriage return is
read as it stands (`toLineFeeds_of_not_mem`). On a screen more characters begin a new line; `lines` cuts
behind each of them.
-/

namespace Bindgen.Text

/-- `cs` with every line end as a single line feed. -/
def toLineFeeds : List Char → List Char
  | [] => []
  | '\r' :: '\n' :: cs => '\n' :: toLineFeeds cs
  | c :: cs => (if c = '\r' then '\n' else c) :: toLineFeeds cs

theorem toLineFeeds_of_not_mem {cs : List Char} (h : '\r' ∉ cs) : toLineFeeds cs = cs := by
  fun_induction toLineFeeds cs with
  | case1 => rfl
  | case2 => simp at h
  | case3 c cs _ ih =>
    simp only [List.mem_cons, not_or] at h
    rw [ih h.2, if_neg (Ne.symm h.1)]

/-- A text as it is read from a file that holds `s`. -/
def asRead (s : String) : String :=
  String.ofList (toLineFeeds s.toList)

/-- The characters behind which a new line begins: the controls that move down or separate records, and
the line ends of Unicode. -/
def isLineBreak (c : Char) : Bool :=
  ('\n' ≤ c && c ≤ '\r') || ('\x1c' ≤ c && c ≤ '\x1e') ||
    c == '\x85' || c == '\u2028' || c == '\u2029'

/-- The lines of `cs`, the first of which begins with `front`. A carriage return goes with a line feed after
it, and an empty last line does not count. -/
def linesFrom (front : List Char) : List Char → List (List Char)
  | [] => if front.isEmpty then [] else [front]
  | '\r' :: '\n' :: cs => front :: linesFrom [] cs
  | c :: cs => if isLineBreak c then front :: linesFrom [] cs else linesFrom (front ++ [c]) cs

/-- The lines of a text. -/
def lines (s : String) : List String :=
  (linesFrom [] s.toList).map String.ofList

end Bindgen.Text
