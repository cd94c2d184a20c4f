/-!
# Sets of code points

A character class of a standard is a set of code points given by the sorted points at which
membership flips, starting from "not a member" at zero. The tables of the library are of this form.

Main statement: `mem_cons_cons`, a set is its first stretch and the set of the remaining flips.
-/

namespace Bindgen.Text

/-- A set of code points, as the ascending points at which membership flips. -/
structure CodeSet where
  /-- The flip points, ascending. -/
  flips : List Nat

namespace CodeSet

/-- Membership of `n`, when everything below the first flip has membership `inside`. -/
def memFrom (inside : Bool) : List Nat → Nat → Bool
  | [], _ => inside
  | x :: xs, n => if n < x then inside else memFrom (!inside) xs n

/-- Whether the code point `n` is in the set. -/
def mem (s : CodeSet) (n : Nat) : Bool :=
  memFrom false s.flips n

theorem mem_nil (n : Nat) : mem ⟨[]⟩ n = false := rfl

/-- Below the first flip nothing is in, up to the second everything, and then the rest decides. -/
theorem mem_cons_cons (lo hi : Nat) (xs : List Nat) (n : Nat) (h : lo ≤ hi) :
    mem ⟨lo :: hi :: xs⟩ n = (decide (lo ≤ n ∧ n < hi) || (decide (hi ≤ n) && mem ⟨xs⟩ n)) := by
  by_cases h₁ : n < lo
  · simp [mem, memFrom, h₁, Nat.not_le.2 h₁, Nat.not_le.2 (Nat.lt_of_lt_of_le h₁ h)]
  · by_cases h₂ : n < hi
    · simp [mem, memFrom, h₁, h₂, Nat.le_of_not_lt h₁]
    · simp [mem, memFrom, h₁, h₂, Nat.le_of_not_lt h₂]

end CodeSet

end Bindgen.Text
