import Bindgen.Wire.Binary
import Bindgen.Wire.Fault

/-!
# Byte streams

A `Reader` stands at an offset of some bytes. What it reads is taken off the rest, or nothing is taken and
the read fails. A `Writer` collects bytes. Both speak the integers of `IntFormat`.
-/

namespace Bindgen.Wire

/-- The first `n` items of a list and those after them, if it has as many. -/
def splitFirst? : Nat → List α → Option (List α × List α)
  | 0, xs => some ([], xs)
  | _ + 1, [] => none
  | n + 1, x :: xs => (splitFirst? n xs).map fun (front, rest) => (x :: front, rest)

theorem splitFirst?_append (xs ys : List α) : splitFirst? xs.length (xs ++ ys) = some (xs, ys) := by
  induction xs with
  | nil => cases ys <;> rfl
  | cons x xs ih => simp [splitFirst?, ih]

theorem append_eq_of_splitFirst? {n : Nat} {xs front rest : List α}
    (h : splitFirst? n xs = some (front, rest)) : front ++ rest = xs ∧ front.length = n := by
  induction n generalizing xs front rest with
  | zero => simp_all [splitFirst?]
  | succ n ih =>
    cases xs with
    | nil => simp [splitFirst?] at h
    | cons x xs =>
      obtain ⟨⟨f, r⟩, hf, he⟩ := Option.map_eq_some_iff.1 h
      obtain ⟨h₁, h₂⟩ := ih hf
      simp only [Prod.mk.injEq] at he
      obtain ⟨rfl, rfl⟩ := he
      simp [h₁, h₂]

/-- Bytes that are being read: how many were, and those still to come. -/
structure Reader where
  offset : Nat
  rest : List UInt8
  deriving DecidableEq, Repr

namespace Reader

/-- A reader at the front of some bytes. -/
def ofBytes (bytes : List UInt8) : Reader := ⟨0, bytes⟩

/-- Reads a count of bytes, which is no count if it is negative. -/
def bytes (r : Reader) (size : Int) : Except Fault (List UInt8 × Reader) :=
  if size < 0 then .error (.internal (.underflow size r.offset))
  else match splitFirst? size.toNat r.rest with
    | some (front, rest) => .ok (front, ⟨r.offset + size.toNat, rest⟩)
    | none => .error (.internal (.underflow size r.offset))

/-- Reads an integer. -/
def int (r : Reader) (f : IntFormat) : Except Fault (Int × Reader) := do
  let (front, r) ← r.bytes f.width
  return (f.decode front, r)

/-- Ends the reading, which is wrong while bytes are left. -/
def finish (r : Reader) : Except Fault Unit :=
  if r.rest.isEmpty then .ok () else .error (.internal (.junk r.rest.length))

end Reader

/-- Bytes that are being written. -/
structure Writer where
  contents : List UInt8
  deriving DecidableEq, Repr

namespace Writer

/-- A writer that has written nothing. -/
def empty : Writer := ⟨[]⟩

/-- Writes bytes. -/
def bytes (w : Writer) (bytes : List UInt8) : Writer := ⟨w.contents ++ bytes⟩

/-- Writes an integer, which has to be in range. -/
def int (w : Writer) (f : IntFormat) (n : Int) : Except Fault Writer :=
  match f.encode? n with
  | some front => .ok (w.bytes front)
  | none => .error .unpackable

end Writer

end Bindgen.Wire
