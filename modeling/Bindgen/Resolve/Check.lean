import Bindgen.Resolve.Table

/-!
# Checking types

`Checker.check` walks everything that can be reached from a type. It fails on a name without a definition,
and on a definition that contains itself by value: through fields, optionals, sequences and maps, but not
through a box or an object.

The walk is depth first with the names being walked on a stack. What stands behind a box is put aside and
walked afterwards with an empty stack, the last one put aside first, so that no name counts as done while it
is still on a stack. A checker remembers the names that passed, and a check that fails leaves it as it was.
-/

namespace Bindgen.Resolve

open Interface

/-- The state of a walk: the names done, and what was put aside with its context, last first. -/
structure Walk where
  done : List String
  pending : List (Ty × Option String)
  deriving DecidableEq, Repr

/-- Walks the by-value part of a type: what is behind a box is put aside, and a name is left to `visit`. -/
def walkTy (visit : Option String → String → Walk → Except Failure Walk) (context : Option String) :
    Ty → Walk → Except Failure Walk
  | .box t, w => .ok { w with pending := (t, context) :: w.pending }
  | .optional t, w => walkTy visit context t w
  | .sequence t, w => walkTy visit context t w
  | .map k v, w => do walkTy visit context v (← walkTy visit context k w)
  | .named name, w => visit context name w
  | _, w => .ok w

/-- The names from the first occurrence of `name` on. -/
def fromName (name : String) : List String → List String
  | [] => []
  | n :: ns => if n = name then n :: ns else fromName name ns

/-- Visits a name, with the names being walked on `stack`, outermost first. What has no answer yet is left to
`inside`, which walks the fields of the definition. -/
def visitName (table : Table) (checked stack : List String) (context : Option String) (name : String)
    (w : Walk) (inside : Definition → Except Failure Walk) : Except Failure Walk := do
  let d ← table.resolve name context
  if d.isObject then .ok w
  else if name ∈ stack then .error (.recursive (fromName name stack ++ [name]))
  else if name ∈ checked ∨ name ∈ w.done then .ok w
  else do
    let w ← inside d
    return { w with done := w.done ++ [name] }

/-- Visits a name and what it stores. Every level puts another name of the table on the stack, so a fuel of
the size of the table is never used up. -/
def visit (table : Table) (checked : List String) :
    Nat → List String → Option String → String → Walk → Except Failure Walk
  | 0, stack, context, name, w =>
    visitName table checked stack context name w fun _ => .error (.recursive (stack ++ [name]))
  | fuel + 1, stack, context, name, w =>
    visitName table checked stack context name w fun d => d.fields.foldlM (fun w f =>
      walkTy (visit table checked fuel (stack ++ [name])) (some s!"{d.name}.{f.name}") f.type w) w

/-- Walks everything that was put aside, and what that puts aside in turn. -/
def walkPending (table : Table) (checked : List String) : Nat → Walk → Except Failure Walk
  | 0, w => .ok w
  | fuel + 1, w =>
    match w.pending with
    | [] => .ok w
    | (t, context) :: rest => do
      walkPending table checked fuel
        (← walkTy (visit table checked table.length []) context t { w with pending := rest })

/-- How many types a walk from `t` can put aside: as many as there are boxes in `t` and in the fields of
the definitions, each of which is walked at most once. -/
def pendingBound (table : Table) (t : Ty) : Nat :=
  (table.flatMap fun (_, d) => d.fields).foldl (fun n f => n + f.type.boxes) t.boxes

/-- The names that a walk from `t` finds sound. -/
def walkFrom (table : Table) (checked : List String) (t : Ty) (context : Option String) :
    Except Failure (List String) :=
  Walk.done <$> walkPending table checked (pendingBound table t + 1) ⟨[], [(t, context)]⟩

/-- A model with its type table and the names that passed a check. -/
structure Checker where
  model : Model
  table : Table
  checked : List String
  deriving DecidableEq, Repr

namespace Checker

/-- A checker that has checked nothing. -/
def ofModel (m : Model) : Except Failure Checker := do
  return ⟨m, ← tableOf m, []⟩

/-- Checks a type that is used in `context`; the result remembers what was found sound. -/
def check (c : Checker) (t : Ty) (context : Option String) : Except Failure Checker := do
  let done ← walkFrom c.table c.checked t context
  return { c with checked := c.checked ++ done.filter (· ∉ c.checked) }

end Checker

end Bindgen.Resolve
